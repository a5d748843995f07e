import Caravan.Framework.Assoc
import Caravan.Framework.Crash
import Caravan.StoreMoves.Job

/-!
# The file operations of a move

The world a mover works in, and `LocalIo` over it: two stores, the job in memory,
the manifest, the clock. Every operation takes one event, which says what
happened around it (`Around`), whether it raised, and — for a write that broke —
how many bytes landed. An operation that raised may have taken effect all the
same (`Event.took`), as one over the network can.

A store that is lost shows the directory under its mount point instead
(`Store.bare`): it has no files until something is written there, and no mark of
this library. An open file stays the file it was opened as (`Handle`).

Three things the source takes from outside are kept as the event's answer:
`library_ok()`, `references()` and which directories a walk could not list.
Links are not followed: the two roots are disjoint trees, and what a link's far
end holds is not theirs. The order of a walk plays no part and is the tree's.

`World` also carries what no code reads: the stamps each source path has had
(`seen`), the folders a scan has walked (`walked`), the trees at the moment of
each folder removal (`removals`), and a list of `Fault`s. A fault names a step
the code's checks do not cover; the steps that raise one are marked here, at the
operation, so that a run without them is a run whose steps all meet a condition
on the state before the step.
-/

namespace StoreMoves

open Crash

abbrev Bytes := List UInt8

/-- A regular file: its bytes, its mtime, and how many of its leading bytes the
disk has confirmed (`fsync`). What stands after them may be lost. -/
structure FileNode where
  content : Bytes
  mtime : ℕ
  synced : ℕ
  deriving DecidableEq, Repr

inductive Node where
  | file (f : FileNode)
  | link (text : String)
  | dir
  | other
  deriving DecidableEq, Repr

/-- A store's files by path under its root. -/
abbrev Tree := List (String × Node)

def FileNode.stamp (f : FileNode) : Stamp := ⟨f.content.length, f.mtime⟩

/-- Everything the disk was given is on it. -/
def FileNode.Solid (f : FileNode) : Prop := f.synced = f.content.length

/-- The path of `rel` inside a folder. -/
def within (folder rel : String) : String := folder ++ "/" ++ rel

/-- The path under a folder of a path inside it, or `none` outside it. -/
def inside? (folder path : String) : Option String :=
  let root := (folder ++ "/").toList
  if root <+: path.toList then some (String.ofList (path.toList.drop root.length)) else none

/-- `os.path.dirname` of a path under a root. -/
def dirname (path : String) : String :=
  String.ofList ((path.toList.reverse.dropWhile (· ≠ '/')).drop 1).reverse

def dirsAboveN : ℕ → String → List String
  | 0, _ => []
  | n + 1, path => if dirname path = "" then [] else dirname path :: dirsAboveN n (dirname path)

/-- The directories above a path, from the nearest up to the root, which is not
one of them. -/
def dirsAbove (path : String) : List String := dirsAboveN path.length path

/-- `os.path.normpath` of an absolute path, as its components. -/
def normpath (path : String) : List (List Char) :=
  ((path.toList.splitOn '/').foldl (fun up c =>
    if c = [] ∨ c = ['.'] then up
    else if c = ['.', '.'] then up.tail
    else c :: up) []).reverse

/-- A link of a folder leads out of it: it is absolute, or `_inside` denies it. -/
def linkOut (root folder rel text : String) : Bool :=
  text.toList.head? = some '/' ||
    !((normpath (within root folder)).isPrefixOf
      (normpath (within (within (within root folder) (dirname rel)) text)))

/-- `rel` bears the temporary name of a copy. -/
def IsPart (rel : String) : Prop := PART_SUFFIX.toList <:+ rel.toList

instance (rel : String) : Decidable (IsPart rel) := by
  unfold IsPart; infer_instance

inductive Side where
  | source
  | target
  deriving DecidableEq, Repr

/-- A store: what it holds, the directory under its mount point, whether it is
mounted, and the mark its root shows while it is not. -/
structure Store where
  tree : Tree
  bare : Tree
  here : Bool
  found : String

/-- What the store's root shows now. -/
def Store.cur (s : Store) : Tree := if s.here then s.tree else s.bare

def Store.setCur (s : Store) (t : Tree) : Store :=
  if s.here then { s with tree := t } else { s with bare := t }

/-- A step the checks of the mover do not cover. -/
inductive Fault where
  /-- A copy was begun in the directory under the mount point of a lost store. -/
  | copyAstray
  /-- A link was planted there. -/
  | linkAstray
  /-- A source file was given a stamp that a file of that path had before. -/
  | stampKept
  /-- A link was put into the source folder after the scan had walked it. -/
  | linkEdited
  /-- The source changed between the last look at the folder and its removal. -/
  | lateEdit
  /-- A walk of the folder did not list all of it. -/
  | unread
  /-- The source answered that a file of the folder is not there, and it was. -/
  | unanswered
  /-- The target held something else under the name of a link of the folder. -/
  | linkTaken
  /-- The folder holds a file with the temporary name of a copy. -/
  | tempName
  deriving DecidableEq, Repr

/-- The two trees when a folder was removed. -/
structure Removal where
  folder : String
  source : Tree
  target : Tree
  deriving DecidableEq

structure World (D : Type) where
  source : Store
  target : Store
  job : MoveJob D
  saved : MoveDoc D
  now : ℕ
  seen : List ((String × Stamp) × Bytes)
  walked : List String
  calm : Bool
  touched : Bool
  faults : List Fault
  removals : List Removal

/-- What happens around an operation. -/
inductive Around where
  /-- The operator stops the job (`MoveRunner.cancel`); `written` says whether its
  write of the manifest succeeded. -/
  | cancel (written : Bool)
  /-- A store is lost: its root shows the directory under it, with this mark. -/
  | lose (side : Side) (found : String)
  | find (side : Side)
  /-- The unconfirmed end of a file at the target is lost or holed. -/
  | tear (path : String) (tail : Bytes)
  /-- Somebody changes the source: a path gets a node, or loses the one it had. -/
  | edit (path : String) (node : Option Node)
  | tick (seconds : ℕ)

/-- An `OSError`; `FileNotFoundError` is told apart by the code. -/
structure OsError where
  missing : Bool
  text : String
  deriving DecidableEq, Repr

inductive Exn where
  | os (e : OsError)
  | cancelled
  deriving DecidableEq, Repr

structure Event where
  around : List Around
  fails : Option OsError
  took : Bool
  landed : ℕ
  answer : Bool
  unread : List String

/-- The event of an operation that nothing disturbs. -/
def Event.quiet : Event := ⟨[], none, false, 0, true, []⟩

variable {D : Type}

namespace World

def store (w : World D) : Side → Store
  | .source => w.source
  | .target => w.target

def setStore (w : World D) (side : Side) (s : Store) : World D :=
  match side with
  | .source => { w with source := s }
  | .target => { w with target := s }

def fault (w : World D) (f : Fault) : World D := { w with faults := f :: w.faults }

def faultIf (w : World D) (c : Prop) [Decidable c] (f : Fault) : World D :=
  if c then w.fault f else w

/-- The file a tree has at a path. -/
def fileAt (t : Tree) (path : String) : Option FileNode :=
  match Assoc.get t path with
  | some (.file f) => some f
  | _ => none

/-- The end of a job on a side. -/
def endOf (w : World D) : Side → End
  | .source => w.job.source
  | .target => w.job.target

/-- The mark a root shows: its own library's while it is here. -/
def markOf (w : World D) (side : Side) : String :=
  if (w.store side).here then (w.endOf side).id
  else if (w.store side).found = (w.endOf side).id then "" else (w.store side).found

/-- A change of the source by somebody else. -/
def edit (w : World D) (path : String) (node : Option Node) : World D :=
  let w' := match node with
    | some (.file f) =>
      { w.faultIf (∃ r ∈ w.seen, r.1 = (path, f.stamp)) .stampKept with
        seen := ((path, f.stamp), f.content) :: w.seen }
    | some (.link _) => w.faultIf (∃ d ∈ w.walked, (inside? d path).isSome) .linkEdited
    | _ => w
  let tree := match node with
    | some n => Assoc.put w.source.tree path n
    | none => Assoc.del w.source.tree path
  { w' with source := { w.source with tree := tree }, calm := false, touched := true }

/-- The bytes of a file after its unconfirmed end became `tail`. -/
def torn (f : FileNode) (tail : Bytes) : FileNode :=
  { f with content := f.content.take f.synced ++ tail.take (f.content.length - f.synced) }

def around1 (w : World D) : Around → World D
  | .cancel written =>
    let job := { w.job with cancel := true }
    { w with job := job, saved := if written then job.toJson else w.saved }
  | .lose side found => w.setStore side { w.store side with here := false, found := found }
  | .find side => w.setStore side { w.store side with here := true }
  | .tear path tail =>
    match fileAt w.target.tree path with
    | some f =>
      { w with target := { w.target with
          tree := Assoc.put w.target.tree path (.file (torn f tail)) } }
    | none => w
  | .edit path node => w.edit path node
  | .tick seconds => { w with now := w.now + seconds }

def around (e : Event) (w : World D) : World D := e.around.foldl around1 w

end World

abbrev Mover (D : Type) := Prog Event (World D) Exn

/-! ### `LocalIo` -/

namespace Io

open World

/-- One operation: what happens around it, then its result and, unless it
raised without taking effect, its effect. -/
def op {A : Type} (res : World D → Except OsError A) (eff : World D → World D) : Mover D A :=
  .act fun e w =>
    let w := around e w
    match e.fails, res w with
    | some x, .ok _ => (.error (.os x), if e.took then eff w else w)
    | some x, .error _ => (.error (.os x), w)
    | none, .ok a => (.ok a, eff w)
    | none, .error x => (.error (.os x), w)

def notFound (path : String) : OsError := ⟨true, "No such file or directory: " ++ path⟩

/-- The file at a path of a side's root, or `FileNotFoundError`. -/
def lookup (w : World D) (side : Side) (path : String) : Except OsError FileNode :=
  match fileAt (w.store side).cur path with
  | some f => .ok f
  | none => .error (notFound path)

/-- `os.path.exists`: an error is the answer no. -/
def exists_ (side : Side) (path : String) : Mover D Bool :=
  .act fun e w =>
    let w := around e w
    (.ok (e.fails.isNone && match Assoc.get (w.store side).cur path with
      | some (.link _) => false
      | some _ => true
      | none => false), w)

/-- `exists` of a planned source file, asked before its stamp is compared: an
answer no for a file that stands there leaves the stamp unread. -/
def sourceExists (inFolder : Bool) (path : String) : Mover D Bool :=
  .act fun e w =>
    let w := around e w
    let there := (fileAt w.source.cur path).isSome
    let yes := e.fails.isNone && match Assoc.get w.source.cur path with
      | some (.link _) => false
      | some _ => true
      | none => false
    (.ok yes, w.faultIf (inFolder = true ∧ yes = false ∧
      (there = true ∨ w.source.here = false)) .unanswered)

/-- `os.path.islink`. -/
def isLink (side : Side) (path : String) : Mover D Bool :=
  .act fun e w =>
    let w := around e w
    (.ok (e.fails.isNone && match Assoc.get (w.store side).cur path with
      | some (.link _) => true
      | _ => false), w)

def size (side : Side) (path : String) : Mover D ℕ :=
  op (fun w => (lookup w side path).map (·.content.length)) id

def stamp (side : Side) (path : String) : Mover D Stamp :=
  op (fun w => (lookup w side path).map FileNode.stamp) id

/-- The id in the mark of a root; an unreadable mark is none. -/
def mark (side : Side) : Mover D String :=
  .act fun e w =>
    let w := around e w
    (.ok (if e.fails.isSome then "" else w.markOf side), w)

/-- Replace the file at a path of a side's root, if there is one. -/
def mapFile (side : Side) (path : String) (g : FileNode → FileNode) (w : World D) : World D :=
  match fileAt (w.store side).cur path with
  | some f => w.setStore side
      ((w.store side).setCur (Assoc.put (w.store side).cur path (.file (g f))))
  | none => w

def truncate (path : String) (n : ℕ) : Mover D Unit :=
  op (fun w => (lookup w .target path).map (fun _ => ()))
    (mapFile .target path fun f =>
      { f with content := f.content.take n, synced := min f.synced n })

def setMtime (path : String) (t : ℕ) : Mover D Unit :=
  op (fun w => (lookup w .target path).map (fun _ => ()))
    (mapFile .target path fun f => { f with mtime := t })

/-- `os.replace` at the target. -/
def replace (src dst : String) : Mover D Unit :=
  op (fun w => (lookup w .target src).map (fun _ => ()))
    (fun w => match fileAt w.target.cur src with
      | some f => w.setStore .target (w.target.setCur
          (Assoc.put (Assoc.del w.target.cur src) dst (.file f)))
      | none => w)

def unlink (side : Side) (path : String) : Mover D Unit :=
  op (fun w => match Assoc.get (w.store side).cur path with
      | some _ => .ok ()
      | none => .error (notFound path))
    (fun w => w.setStore side ((w.store side).setCur (Assoc.del (w.store side).cur path)))

/-- `os.makedirs(path, exist_ok=True)` at the target; the root is there. -/
def makedirs (path : String) : Mover D Unit :=
  op (fun _ => .ok ())
    (fun w => match Assoc.get w.target.cur path with
      | some _ => w
      | none => if path = "" then w
        else w.setStore .target (w.target.setCur (Assoc.put w.target.cur path .dir)))

/-- `os.symlink` at the target. -/
def symlink (text path : String) : Mover D Unit :=
  op (fun w => match Assoc.get w.target.cur path with
      | some _ => .error ⟨false, "File exists: " ++ path⟩
      | none => .ok ())
    (fun w =>
      (w.setStore .target (w.target.setCur (Assoc.put w.target.cur path (.link text)))).faultIf
        (w.target.here = false) .linkAstray)

inductive Kind where
  | file
  | link
  | dir
  | other
  deriving DecidableEq, Repr

/-- One entry of a walk: kind, path under the folder, size, link text. -/
structure Entry where
  kind : Kind
  rel : String
  size : ℕ
  text : String

def Entry.of (rel : String) : Node → Entry
  | .file f => ⟨.file, rel, f.content.length, ""⟩
  | .link text => ⟨.link, rel, 0, text⟩
  | .dir => ⟨.dir, rel, 0, ""⟩
  | .other => ⟨.other, rel, 0, ""⟩

/-- Everything a tree has inside a folder. -/
def entries (t : Tree) (folder : String) : List (String × Node) :=
  t.filterMap fun p => (inside? folder p.1).map fun rel => (rel, p.2)

/-- `LocalIo.walk` of a source folder. `os.walk` passes over a directory it
cannot list, and over a root that is not there, without an error. -/
def walk (folder : String) : Mover D (List Entry) :=
  .act fun e w =>
    let w := around e w
    match e.fails with
    | some x => (.error (.os x), w)
    | none =>
      let found := (entries w.source.cur folder).filter fun p =>
        e.unread.all fun d => (inside? d p.1).isNone
      let w' := w.faultIf (w.source.here = false ∨ found ≠ entries w.source.cur folder) .unread
      let w' := w'.faultIf (∃ p ∈ found, IsPart p.1) .tempName
      (.ok (found.map fun p => Entry.of p.1 p.2),
        { w' with walked := folder :: w'.walked, calm := true })

/-- The folder itself, or something in it. -/
def isUnder (folder path : String) : Bool := path = folder || (inside? folder path).isSome

/-- A source folder removed, but for the paths left over. -/
def removed (folder : String) (left : List String) (w : World D) : World D :=
  let noted := { w with removals := ⟨folder, w.source.tree, w.target.tree⟩ :: w.removals }
  let noted := noted.faultIf (w.calm = false) .lateEdit
  let rest := w.source.tree.filter fun p => !isUnder folder p.1 || left.contains p.1
  { noted with source := { w.source with tree := rest } }

/-- `shutil.rmtree` of a source folder: a failure leaves part of it, here what
`unread` names. -/
def rmtree (folder : String) : Mover D Unit :=
  .act fun e w =>
    let w := around e w
    if w.source.here && w.source.tree.any (fun p => isUnder folder p.1) then
      match e.fails with
      | some x => (.error (.os x), removed folder e.unread w)
      | none => (.ok (), removed folder [] w)
    else (.error (.os (e.fails.getD (notFound folder))), w)

/-- `os.rmdir` of a source directory: it goes only when it is empty. -/
def rmdir (path : String) : Mover D Unit :=
  op (fun w => if Assoc.get w.source.cur path = some .dir
        ∧ (entries w.source.cur path).isEmpty = true
      then .ok () else .error ⟨false, "Directory not empty: " ++ path⟩)
    (fun w => w.setStore .source (w.source.setCur (Assoc.del w.source.cur path)))

/-- An open file: its path, and whether it was opened under the mount point of a
store that was away. -/
structure Handle where
  path : String
  bare : Bool

def Handle.treeOf (h : Handle) (s : Store) : Tree := if h.bare then s.bare else s.tree

def Handle.setTree (h : Handle) (s : Store) (t : Tree) : Store :=
  if h.bare then { s with bare := t } else { s with tree := t }

def openRead (side : Side) (path : String) : Mover D Handle :=
  op (fun w => (lookup w side path).map fun _ => ⟨path, !(w.store side).here⟩) id

/-- `open(path, "ab")` at the target: the file is made when it is not there. -/
def openAppend (path : String) : Mover D Handle :=
  op (fun w => match Assoc.get w.target.cur path with
      | some (.file _) | none => .ok ⟨path, !w.target.here⟩
      | some _ => .error ⟨false, "not a file: " ++ path⟩)
    (fun w => match Assoc.get w.target.cur path with
      | none => (w.setStore .target (w.target.setCur
          (Assoc.put w.target.cur path (.file ⟨[], w.now, 0⟩)))).faultIf
            (w.target.here = false) .copyAstray
      | some _ => w)

/-- At most `n` bytes of an open file from an offset. -/
def readBlock (side : Side) (h : Handle) (offset n : ℕ) : Mover D Bytes :=
  op (fun w => match fileAt (h.treeOf (w.store side)) h.path with
    | some f => .ok ((f.content.drop offset).take n)
    | none => .error (notFound h.path)) id

/-- Change the open file of the target, if it is still there. -/
def onHandle (h : Handle) (g : FileNode → FileNode) (w : World D) : World D :=
  match fileAt (h.treeOf w.target) h.path with
  | some f =>
    let tree := Assoc.put (h.treeOf w.target) h.path (.file (g f))
    { w with target := h.setTree w.target tree }
  | none => w

/-- `writer.write`: one that breaks leaves the bytes that had landed. -/
def write (h : Handle) (block : Bytes) : Mover D Unit :=
  .act fun e w =>
    let w := around e w
    let grow := fun n (f : FileNode) => { f with content := f.content ++ block.take n, mtime := w.now }
    match e.fails with
    | some x => (.error (.os x), onHandle h (grow e.landed) w)
    | none => (.ok (), onHandle h (grow block.length) w)

/-- `flush` and `os.fsync`. -/
def fsync (h : Handle) : Mover D Unit :=
  op (fun _ => .ok ()) (onHandle h fun f => { f with synced := f.content.length })

/-- The digest of a source file: the proof's own thread reads it. -/
def hashSource (sha : Bytes → D) (path : String) : Mover D D :=
  op (fun w => (lookup w .source path).map fun f => sha f.content) id

/-- A yes or no of the outside: `library_ok()`, `references()`. -/
def ask : Mover D Bool := .act fun e w => (.ok e.answer, around e w)

def sleep (seconds : ℕ) : Mover D Unit :=
  .act fun e w =>
    let w := around e w
    (.ok (), { w with now := w.now + seconds })

/-- The manifest, whole or not at all. -/
def save : Mover D Unit := op (fun _ => .ok ()) fun w => { w with saved := w.job.toJson }

end Io

end StoreMoves
