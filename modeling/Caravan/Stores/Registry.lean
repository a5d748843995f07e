import Caravan.Python.Except
import Caravan.Stores.Paths

/-!
# The registry of the stores and the moves between them

`StoreRegistry`: the controller's own models directory, which the configuration names, and
the libraries it was given by `add` and `repath`. The process that answers compares the
paths as texts and does not follow them: whether a directory is there, and which mark it
carries, is asked of a probe (`claim`, `look`), which sees the file system.

`moveItem` is a move of one item over that file system: each file is brought, an existing
one proven where it is, and then the originals go. What a move does on the way — the
temporary name, the time it waits, what a running cell holds — is in `StoreMoves`; there the
two stores are disjoint trees, and here is where that comes from.
-/

namespace Stores

open Python

abbrev Bytes := List UInt8

/-! ### The file system -/

/-- The mark of a library, in its root. -/
structure Mark where
  id : Text
  name : Text
  deriving DecidableEq

/-- What stands at the physical paths. -/
structure Disk where
  link : Path → Option (Links.Target Text)
  dir : Path → Bool
  mounted : Path → Bool
  mark : Path → Option Mark
  file : Path → Option Bytes

/-- The links the kernel follows before it gives a path up. -/
def MAXSYMLINKS : ℕ := 40

namespace Disk

/-- The physical path of a path. -/
def resolve (d : Disk) (p : Path) : Option Path := Links.resolve d.link MAXSYMLINKS [] (p.map some)

def isDir (d : Disk) (p : Path) : Bool := (d.resolve p).any d.dir

def isMount (d : Disk) (p : Path) : Bool := (d.resolve p).any d.mounted

/-- `read_mark` -/
def readMark (d : Disk) (p : Path) : Option Mark := (d.resolve p).bind d.mark

/-- The bytes of a file. -/
def read (d : Disk) (p : Path) : Option Bytes := (d.resolve p).bind d.file

/-- Where an entry stands: in the directory that the path leads to, under its own name. -/
def entry (d : Disk) (p : Path) : Option Path :=
  match p.getLast? with
  | none => some []
  | some name => (d.resolve p.dropLast).map (· ++ [name])

def setMark (d : Disk) (p : Path) (m : Mark) : Disk :=
  { d with mark := fun q => if d.resolve p = some q then some m else d.mark q }

/-- A file under its final name: `os.replace` takes the place of what stands there. -/
def setFile (d : Disk) (p : Path) (c : Bytes) : Disk :=
  { d with
    link := fun q => if d.entry p = some q then none else d.link q
    file := fun q => if d.entry p = some q then some c else d.file q }

/-- Everything that stands at certain paths goes: a link is removed, not followed. -/
def remove (d : Disk) (gone : Path → Bool) : Disk :=
  { d with
    link := fun q => if gone q then none else d.link q
    file := fun q => if gone q then none else d.file q }

/-- `os.unlink` -/
def unlink (d : Disk) (p : Path) : Disk := d.remove fun q => d.entry p = some q

/-- `shutil.rmtree` -/
def rmtree (d : Disk) (p : Path) : Disk := d.remove fun q => (d.entry p).any (· <+: q)

end Disk

/-! ### The registry -/

/-- `StoreRefused` -/
structure StoreRefused where
  message : Text
  code : Text
  status : ℕ := 409
  deriving DecidableEq

/-- A library on the list. -/
structure Row where
  id : Text
  name : Text
  path : Root
  deriving DecidableEq

inductive Role
  | localDir
  | library
  deriving DecidableEq

/-- `ModelStore` -/
structure ModelStore where
  id : Text
  name : Text
  path : Root
  role : Role
  deriving DecidableEq

def LOCAL_ID : Text := "local"

/-- What the controller knows, and the disk it stands on. -/
structure Registry where
  /-- the models directory of the configuration -/
  modelsDir : Root
  saved : List Row
  disk : Disk

def Row.store (r : Row) : ModelStore := ⟨r.id, r.name, r.path, .library⟩

/-- `StoreRegistry.stores` -/
def Registry.stores (s : Registry) : List ModelStore :=
  ⟨LOCAL_ID, [], s.modelsDir, .localDir⟩ :: s.saved.map Row.store

def refuseIf (refused : Prop) [Decidable refused] (e : StoreRefused) : Except StoreRefused Unit :=
  if refused then .error e else .ok ()

/-- The comparison of a new path with the other stores'. -/
def checkOthers (root : Root) : List Root → Except StoreRefused Unit
  | [] => .ok ()
  | other :: others => do
    refuseIf (root = other) ⟨root.text ++ Text.of " is already a store", "duplicate", 409⟩
    refuseIf (other.under.isPrefixOf root.text ∨ root.under.isPrefixOf other.text)
      ⟨root.text ++ Text.of " and " ++ other.text ++
        Text.of " are nested: every model in the inner one would be counted twice", "nested", 409⟩
    checkOthers root others

/-- What is asked of a path before the probe is. -/
def checkPath (path : Text) : Except StoreRefused Root := do
  let raw := path.strip
  refuseIf (raw = []) ⟨"a path is required", "no-path", 400⟩
  refuseIf (isabs raw = false) ⟨Text.of "the path must be absolute: " ++ raw, "not-absolute", 400⟩
  return normpath raw

structure AddBody where
  path : Text
  name : Text
  force : Bool
  /-- the id a new library would get -/
  newId : Text
  /-- the probe's child answered in time -/
  answers : Bool
  /-- the mark could be written -/
  writable : Bool

/-- `name or basename(root) or root` -/
def AddBody.label (b : AddBody) (root : Root) : Text :=
  if b.name.strip ≠ [] then b.name.strip
  else match root.parts.getLast? with
    | some last => last
    | none => root.text

/-- `StoreProbe.claim`: the mark the directory carries, a new one where it has none. -/
def claim (d : Disk) (root : Root) (b : AddBody) : Except StoreRefused (Mark × Disk) := do
  refuseIf (b.answers = false) ⟨root.text ++ Text.of " does not answer", "unreachable", 504⟩
  refuseIf (d.isDir root.parts = false) ⟨Text.of "no directory at " ++ root.text, "missing", 404⟩
  match d.readMark root.parts with
  | some mark => return (mark, d)
  | none =>
    refuseIf (d.isMount root.parts = false ∧ b.force = false)
      ⟨root.text ++ Text.of (" is not a mount point and carries no library mark: if the share " ++
        "did not mount, this is an empty local folder, and marking it would make the local " ++
        "disk pose as the library"), "not-a-mount", 409⟩
    refuseIf (b.writable = false)
      ⟨Text.of "cannot write the library mark into " ++ root.text, "not-writable", 409⟩
    let mark : Mark := ⟨b.newId, b.label root⟩
    return (mark, d.setMark root.parts mark)

/-- What is asked before a library is put on the list. -/
def addChecks (s : Registry) (b : AddBody) : Except StoreRefused (Root × Mark × Disk) := do
  let root ← checkPath b.path
  checkOthers root (s.modelsDir :: s.saved.map Row.path)
  let (mark, disk) ← claim s.disk root b
  return (root, mark, disk)

/-- `StoreRegistry.add`: what it answers, and what it leaves. -/
def add (s : Registry) (b : AddBody) : Except StoreRefused Unit × Registry :=
  match addChecks s b with
  | .error e => (.error e, s)
  | .ok (root, mark, disk) =>
    if mark.id ∈ s.saved.map Row.id then
      (.error ⟨Text.of "this library is already on the list (id " ++ mark.id ++ Text.of ")",
        "duplicate", 409⟩, { s with disk := disk })
    else (.ok (), { s with saved := s.saved ++ [⟨mark.id, mark.name, root⟩], disk := disk })

structure RepathBody where
  id : Text
  path : Text
  answers : Bool

/-- The mark at the new path is the library's own. -/
def checkMark (root : Root) (sid : Text) : Option Mark → Except StoreRefused Unit
  | none => .error ⟨root.text ++
      Text.of " carries no library mark: the share is not mounted there", "not-a-mount", 409⟩
  | some mark => refuseIf (mark.id ≠ sid)
      ⟨root.text ++ Text.of " holds another library: " ++ mark.name, "other-library", 409⟩

/-- The row of an id. -/
def findRow (saved : List Row) (sid : Text) : Except StoreRefused Row :=
  match saved.find? (·.id = sid) with
  | none => .error ⟨Text.of "no such store: " ++ sid, "unknown-id", 404⟩
  | some row => .ok row

/-- `StoreRegistry.repath` -/
def repath (s : Registry) (b : RepathBody) : Except StoreRefused Registry := do
  let sid := b.id.strip
  refuseIf (sid = LOCAL_ID)
    ⟨"the controller's own models directory is changed with ✎ on the page", "builtin", 409⟩
  let row ← findRow s.saved sid
  let root ← checkPath b.path
  if root = row.path then return s
  else do
    checkOthers root (s.modelsDir :: (s.saved.filter (·.id ≠ sid)).map Row.path)
    refuseIf (b.answers = false ∨ s.disk.isDir root.parts = false)
      ⟨root.text ++ Text.of " does not answer", "unreachable", 504⟩
    checkMark root sid (s.disk.readMark root.parts)
    return { s with saved := s.saved.map fun r => if r.id = sid then { r with path := root } else r }

/-- `StoreRegistry.remove` -/
def removeStore (s : Registry) (id : Text) : Except StoreRefused Registry := do
  let sid := id.strip
  refuseIf (sid = LOCAL_ID)
    ⟨"the controller's own models directory is changed with ✎, not removed", "builtin", 409⟩
  let keep := s.saved.filter (·.id ≠ sid)
  refuseIf (keep.length = s.saved.length) ⟨Text.of "no such store: " ++ sid, "unknown-id", 404⟩
  return { s with saved := keep }

/-! ### The moves -/

/-- Why a move keeps both copies, or waits. -/
inductive Kept
  | localGone
  | nameTaken
  | copyMissing
  | libraryAbsent
  | unwritable
  deriving DecidableEq

/-- What moves: files by their paths under a root, of a folder where the item is one. -/
structure Item where
  folder : Option Path
  files : List Path

/-- `os.path.join(root, rel)` -/
def ModelStore.at (m : ModelStore) (rel : Path) : Path := m.path.parts ++ rel

/-- A library's root carries its mark. -/
def ModelStore.here (d : Disk) (m : ModelStore) : Bool :=
  m.role = .localDir || (d.readMark m.path.parts).any (·.id = m.id)

/-- `_stores_here` -/
def storesHere (d : Disk) (src dst : ModelStore) : Bool := src.here d && dst.here d

variable {D : Type} [DecidableEq D] (sha : Bytes → D)

/-- `_prove`, of what was read at both ends -/
def proves (c c' : Bytes) : Bool := c'.length = c.length && sha c' = sha c

/-- `_bring` -/
def bring (d : Disk) (src dst : ModelStore) (rel : Path) : Except Kept Disk :=
  match d.read (src.at rel) with
  | none => .error .localGone
  | some c =>
    if storesHere d src dst = false then .error .libraryAbsent
    else match d.read (dst.at rel) with
      -- already there: it is proven or refused, never overwritten
      | some c' => if proves sha c c' then .ok d else .error .nameTaken
      | none =>
        match d.entry (dst.at rel) with
        | none => .error .unwritable
        | some _ => .ok (d.setFile (dst.at rel) c)

/-- The files of an item, one after the other. -/
def bringAll (src dst : ModelStore) : List Path → Disk → Except Kept Disk
  | [], d => .ok d
  | rel :: rels, d => do
    let d ← bring sha d src dst rel
    bringAll src dst rels d

/-- `_why_keep`, of the copies -/
def copiesLanded (d₀ d : Disk) (src dst : ModelStore) (files : List Path) : Bool :=
  files.all fun rel => (d.read (dst.at rel)).map List.length = (d₀.read (src.at rel)).map List.length

/-- The originals go: one file after the other, or the whole folder at once. -/
def removeItem (src : ModelStore) (item : Item) (d : Disk) : Disk :=
  match item.folder with
  | some folder => d.rmtree (src.at folder)
  | none => item.files.foldl (fun d rel => d.unlink (src.at rel)) d

/-- `_item`: the move of one item, to the removal of its originals. -/
def moveItem (d₀ : Disk) (src dst : ModelStore) (item : Item) : Except Kept Disk := do
  let d ← bringAll sha src dst item.files d₀
  if storesHere d src dst = false then .error .libraryAbsent
  else if copiesLanded d₀ d src dst item.files = false then .error .copyMissing
  else return removeItem src item d

end Stores
