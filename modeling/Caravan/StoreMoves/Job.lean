import Mathlib.Data.List.Basic
import Mathlib.Data.List.GetD

/-!
# The record of a move

`MoveJob` and its items and files, as `caravan/admin/store_moves.py` keeps them
in memory and writes them to the manifest. What a job says about time of
creation and about a cell waiting for it is read by the runner's list only, and
is left out.

`toJson` and `fromJson` are the manifest's two directions. A process that died is
followed by one that starts from `fromJson` of the last record written, so the
round trip (`fromJson_toJson`) is what makes the manifest a copy of the memory.
-/

namespace StoreMoves

/-- The temporary name a copy carries until it is proven. -/
def PART_SUFFIX : String := ".caravan-part"

def CHUNK : ℕ := 4 * 1024 * 1024
def CHECKPOINT_BYTES : ℕ := 256 * 1024 * 1024
def WAIT_S : ℕ := 30
def SETTLE_S : ℕ := 120
def MAX_ATTEMPTS : ℕ := 2
def MAX_ERRORS : ℕ := 5

/-- What `os.stat` says of a file: size and mtime in nanoseconds. -/
structure Stamp where
  size : ℕ
  mtime : ℕ
  deriving DecidableEq, Repr

inductive EndKind where
  | localDisk
  | library
  deriving DecidableEq, Repr

/-- One end of a move: a store by id, root and kind. -/
structure End where
  id : String
  root : String
  kind : EndKind
  deriving DecidableEq, Repr

inductive ItemState where
  | pending
  | removing
  | done
  | skipped
  | cancelled
  deriving DecidableEq, Repr

/-- `FINAL_ITEM_STATES`. -/
def ItemState.final : ItemState → Bool
  | .done | .skipped | .cancelled => true
  | .pending | .removing => false

inductive FileState where
  | pending
  | proven
  deriving DecidableEq, Repr

inductive Phase where
  | none
  | copying
  | checking
  | proven
  | removed
  deriving DecidableEq, Repr

inductive JobStatus where
  | queued
  | running
  | waiting
  | done
  | failed
  | cancelled
  deriving DecidableEq, Repr

/-- `FINAL_JOB_STATES`. -/
def JobStatus.final : JobStatus → Bool
  | .done | .failed | .cancelled => true
  | .queued | .running | .waiting => false

/-- One file of an item. `stamp` is `none` for the empty list a library's file
is planned with, and `sha256` is `none` until a proof has set it. -/
structure MoveFile (D : Type) where
  rel : String
  size : ℕ
  stamp : Option Stamp
  state : FileState
  phase : Phase
  done : ℕ
  synced : ℕ
  attempts : ℕ
  copiedAt : ℕ
  sha256 : Option D
  bypassed : Bool
  deriving DecidableEq, Repr

/-- One item: a file, a multi-part group, or — with `folder` set — a folder. -/
structure MoveItem (D : Type) where
  key : String
  state : ItemState
  note : String
  detail : String
  errors : ℕ
  files : List (MoveFile D)
  folder : String
  size : ℕ
  links : List (String × String)
  dirs : List String
  scanned : Bool
  deriving DecidableEq, Repr

structure MoveJob (D : Type) where
  id : String
  source : End
  target : End
  items : List (MoveItem D)
  status : JobStatus
  reason : String
  finishedAt : ℕ
  cancel : Bool
  deriving DecidableEq, Repr

variable {D : Type}

def newFile (rel : String) (size : ℕ) (stamp : Option Stamp) : MoveFile D :=
  { rel, size, stamp, state := .pending, phase := .none, done := 0, synced := 0,
    attempts := 0, copiedAt := 0, sha256 := none, bypassed := false }

def newItem (key : String) (files : List (MoveFile D)) (folder : String) (size : ℕ) :
    MoveItem D :=
  { key, state := .pending, note := "", detail := "", errors := 0, files, folder, size,
    links := [], dirs := [], scanned := false }

def MoveJob.finished (job : MoveJob D) : Bool := job.status.final

/-- The manifest on disk. A record written before moves ran in both directions
has no source end and names its two roots beside the target. -/
structure MoveDoc (D : Type) where
  id : String
  source : Option End
  target : End
  localRoot : String
  libraryRoot : String
  items : List (MoveItem D)
  status : JobStatus
  reason : String
  finishedAt : ℕ
  cancel : Bool
  deriving DecidableEq, Repr

def MoveJob.toJson (job : MoveJob D) : MoveDoc D :=
  { id := job.id, source := some job.source, target := job.target, localRoot := "",
    libraryRoot := "", items := job.items, status := job.status, reason := job.reason,
    finishedAt := job.finishedAt, cancel := job.cancel }

def MoveJob.fromJson (doc : MoveDoc D) : MoveJob D :=
  let ends : End × End := match doc.source with
    | some source => (source, doc.target)
    | none => ({ id := "local", root := doc.localRoot, kind := .localDisk },
        { doc.target with root := doc.libraryRoot, kind := .library })
  { id := doc.id, source := ends.1, target := ends.2, items := doc.items,
    status := doc.status, reason := doc.reason, finishedAt := doc.finishedAt,
    cancel := doc.cancel }

@[simp] theorem fromJson_toJson (job : MoveJob D) : MoveJob.fromJson job.toJson = job := rfl

/-! ### Assignments to one item or one file -/

def MoveJob.item (job : MoveJob D) (i : ℕ) : MoveItem D :=
  job.items.getD i (newItem "" [] "" 0)

def MoveItem.file (item : MoveItem D) (j : ℕ) : MoveFile D :=
  item.files.getD j (newFile "" 0 none)

def MoveJob.setItem (job : MoveJob D) (i : ℕ) (g : MoveItem D → MoveItem D) : MoveJob D :=
  { job with items := job.items.modify i g }

def MoveItem.setFile (item : MoveItem D) (j : ℕ) (g : MoveFile D → MoveFile D) : MoveItem D :=
  { item with files := item.files.modify j g }

theorem getD_modify {A : Type} (l : List A) (d : A) (k : ℕ) (g : A → A) :
    (l.modify k g).getD k d = if k < l.length then g (l.getD k d) else d := by
  split
  · next h => simp [List.getD_eq_getElem?_getD, h]
  · next h =>
    rw [List.getD_eq_default]
    simpa using h

/-- A place the job does not have holds an item without files. -/
theorem MoveJob.lt_of_file {job : MoveJob D} {i j : ℕ} (h : j < (job.item i).files.length) :
    i < job.items.length := by
  by_contra hge
  rw [MoveJob.item, List.getD_eq_default _ _ (by omega)] at h
  simp [newItem] at h

theorem MoveJob.item_setItem (job : MoveJob D) (i : ℕ) (g : MoveItem D → MoveItem D) :
    (job.setItem i g).item i =
      if i < job.items.length then g (job.item i) else newItem "" [] "" 0 :=
  getD_modify _ _ _ _

theorem MoveItem.file_setFile (item : MoveItem D) (j : ℕ) (g : MoveFile D → MoveFile D) :
    (item.setFile j g).file j =
      if j < item.files.length then g (item.file j) else newFile "" 0 none :=
  getD_modify _ _ _ _

@[simp] theorem MoveItem.length_setFile (item : MoveItem D) (j : ℕ)
    (g : MoveFile D → MoveFile D) : (item.setFile j g).files.length = item.files.length := by
  simp [MoveItem.setFile]

theorem MoveItem.file_of_le {item : MoveItem D} {j : ℕ} (h : item.files.length ≤ j) :
    item.file j = newFile "" 0 none :=
  List.getD_eq_default _ _ h

theorem MoveJob.item_of_le {job : MoveJob D} {i : ℕ} (h : job.items.length ≤ i) :
    job.item i = newItem "" [] "" 0 :=
  List.getD_eq_default _ _ h

theorem MoveJob.item_mem {job : MoveJob D} {i : ℕ} (h : i < job.items.length) :
    job.item i ∈ job.items := by
  rw [MoveJob.item, List.getD_eq_getElem _ _ h]
  exact List.getElem_mem h

theorem MoveItem.file_mem {item : MoveItem D} {j : ℕ} (h : j < item.files.length) :
    item.file j ∈ item.files := by
  rw [MoveItem.file, List.getD_eq_getElem _ _ h]
  exact List.getElem_mem h

/-- File `j` of item `i` after it was set, where there is one. -/
theorem MoveJob.file_setFile (job : MoveJob D) (i j : ℕ) {g : MoveFile D → MoveFile D}
    (h : j < (job.item i).files.length) :
    ((job.setItem i fun item => item.setFile j g).item i).file j =
      g ((job.item i).file j) := by
  rw [MoveJob.item_setItem, if_pos (lt_of_file h), MoveItem.file_setFile, if_pos h]

theorem MoveJob.length_setFile (job : MoveJob D) (i j : ℕ) (g : MoveFile D → MoveFile D) :
    ((job.setItem i fun item => item.setFile j g).item i).files.length =
      (job.item i).files.length := by
  rw [MoveJob.item_setItem]
  split
  · exact MoveItem.length_setFile _ _ _
  · next h => rw [MoveJob.item_of_le (Nat.not_lt.mp h)]

def MoveItem.rels (item : MoveItem D) : List String := item.files.map MoveFile.rel

end StoreMoves
