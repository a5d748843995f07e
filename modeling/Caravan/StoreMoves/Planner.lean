import Caravan.Python.Text
import Caravan.StoreMoves.Invariant
import Mathlib.Data.List.Infix
import Mathlib.Data.List.Sort

/-!
# The plan of a move

`MovePlanner.plan` turns the paths a page picked into a job or into a refusal. A picked
file brings the files of its group, a picked folder goes as one item. The paths the items
stand for are compared with those of the jobs under way (`busy`) as they are written: a
plan that is made holds none of them (`plan_free`), but it may hold a file of a busy folder.

What the planner asks of the stores, of the disk and of the cells is a `View`.
-/

namespace StoreMoves

open Python

variable {D : Type}

/-! ### Paths that lie in one another -/

def pathNames (p : String) : List (List Char) := p.toList.splitOn '/'

/-- The second path is the first or lies in it. -/
def Covers (p q : String) : Prop := pathNames p <+: pathNames q

/-- One path is the other or lies in it. -/
def Overlap (p q : String) : Prop := Covers p q ∨ Covers q p

instance (p q : String) : Decidable (Covers p q) := by
  unfold Covers
  infer_instance

instance (p q : String) : Decidable (Overlap p q) := by
  unfold Overlap
  infer_instance

theorem Covers.refl (p : String) : Covers p p := List.prefix_rfl

theorem Overlap.symm {p q : String} (h : Overlap p q) : Overlap q p := Or.symm h

theorem covers_within (folder rel : String) : Covers folder (within folder rel) := by
  have hcut : (within folder rel).toList = folder.toList ++ '/' :: rel.toList := by
    rw [within_toList, String.toList_append]
    simp
  rw [Covers, pathNames, pathNames, hcut, List.splitOn_append_cons_self]
  exact List.prefix_append _ _

/-- A path that meets what lies in a folder meets the folder. -/
theorem Overlap.of_covers {c p q : String} (hc : Covers c p) (h : Overlap p q) :
    Overlap c q := by
  cases h with
  | inl h => exact .inl (hc.trans h)
  | inr h => exact List.prefix_or_prefix_of_prefix hc h

/-! ### What a job holds -/

/-- The paths an item was planned for: a folder stands for what is in it. -/
def MoveItem.cover (item : MoveItem D) : List String :=
  if item.folder = "" then item.rels else [item.folder]

def MoveJob.cover (job : MoveJob D) : List String := job.items.flatMap MoveItem.cover

/-- `MoveJob.paths` -/
def MoveJob.paths (job : MoveJob D) : List String :=
  job.items.flatMap MoveItem.rels ++
    (job.items.filter fun item => item.folder ≠ "").map MoveItem.folder

/-- The files of a folder lie in it. -/
def MoveItem.Tidy (item : MoveItem D) : Prop :=
  item.folder ≠ "" → ∀ r ∈ item.rels, ∃ q, r = within item.folder q

def MoveJob.Tidy (job : MoveJob D) : Prop := ∀ item ∈ job.items, item.Tidy

theorem MoveJob.cover_subset_paths (job : MoveJob D) : job.cover ⊆ job.paths := by
  intro p hp
  obtain ⟨item, hitem, hp⟩ := List.mem_flatMap.mp hp
  rw [MoveItem.cover] at hp
  split at hp
  · exact List.mem_append_left _ (List.mem_flatMap.mpr ⟨item, hitem, hp⟩)
  · next hf =>
    obtain rfl := List.mem_singleton.mp hp
    exact List.mem_append_right _ (List.mem_map.mpr
      ⟨item, List.mem_filter.mpr ⟨hitem, by simpa using hf⟩, rfl⟩)

/-- Every path a job holds lies in one it was planned for. -/
theorem MoveJob.Tidy.covered {job : MoveJob D} (h : job.Tidy) {p : String}
    (hp : p ∈ job.paths) : ∃ c ∈ job.cover, Covers c p := by
  have hold : ∀ item ∈ job.items, ∀ c ∈ item.cover, c ∈ job.cover :=
    fun item hitem c hc => List.mem_flatMap.mpr ⟨item, hitem, hc⟩
  cases List.mem_append.mp hp with
  | inl hp =>
    obtain ⟨item, hitem, hr⟩ := List.mem_flatMap.mp hp
    by_cases hf : item.folder = ""
    · exact ⟨p, hold item hitem p (by rwa [MoveItem.cover, if_pos hf]), Covers.refl p⟩
    · obtain ⟨q, rfl⟩ := h item hitem hf p hr
      exact ⟨item.folder, hold item hitem _ (by rw [MoveItem.cover, if_neg hf]; simp),
        covers_within _ _⟩
  | inr hp =>
    obtain ⟨item, hitem, rfl⟩ := List.mem_map.mp hp
    obtain ⟨hitem, hf⟩ := List.mem_filter.mp hitem
    have hf : item.folder ≠ "" := by simpa using hf
    exact ⟨item.folder, hold item hitem _ (by rw [MoveItem.cover, if_neg hf]; simp),
      Covers.refl _⟩

/-! ### What the planner asks -/

/-- `MoveRefused` -/
structure MoveRefused where
  message : String
  code : String
  status : ℕ := 409
  deriving DecidableEq, Repr

/-- `if refused: raise MoveRefused(…)` -/
def refuseIf (refused : Prop) [Decidable refused] (e : MoveRefused) : Except MoveRefused Unit :=
  if refused then .error e else .ok ()

theorem refuseIf_ok {c : Prop} [Decidable c] {e : MoveRefused} {u : Unit}
    (h : refuseIf c e = .ok u) : ¬ c := by
  intro hc
  rw [refuseIf, if_pos hc] at h
  exact nomatch h

/-- What `_end` makes of a row of `registry().statuses`. -/
structure StoreEnd where
  id : String
  name : String
  path : String
  kind : EndKind
  state : String
  free : Option ℕ
  detail : String
  deriving DecidableEq, Repr

/-- An entry of `list_unused_models`, or of what a library was last seen to hold. -/
structure StoreFile where
  path : String
  size : ℕ
  group : String
  kind : String
  deriving DecidableEq, Repr

/-- What a plan is made from. -/
structure View where
  rows : List StoreEnd
  /-- `list_unused_models`: the files and the path, or its `error`. -/
  listing : Except String (List StoreFile × String)
  /-- The last walk of each library, each file with its `part_group`. -/
  library : List (String × (List StoreFile × String))
  is_link : String → Bool
  stamp : String → Stamp
  /-- `_reading`: the cells that read one of these files. -/
  reading : List String → List String
  /-- `f"{total / 2 ** 30:.1f}"` -/
  gigabytes : ℕ → String

def SPACE_MARGIN : ℕ := 2 * 2 ^ 30

/-- What `MoveRunner.start` is called with. -/
structure Request where
  paths : List String
  target_id : String
  source_id : Option String
  deriving DecidableEq, Repr

/-- `str(p or "").strip().lstrip("/")` -/
def cleaned (p : String) : String :=
  let blank := fun c => isSpace (codePoint c)
  String.ofList (((p.toList.dropWhile blank).rdropWhile blank).dropWhile (· = '/'))

/-- `", ".join(sorted(reading))` -/
def joined (names : List String) : String :=
  ", ".intercalate (names.insertionSort (· ≤ ·))

namespace View

variable (v : View)

/-- `_end` -/
def findEnd (store_id side : String) : Except MoveRefused StoreEnd :=
  match v.rows.find? fun s => s.id = store_id with
  | some row => .ok row
  | none => .error ⟨"no such store: " ++ store_id, "no-" ++ side, 404⟩

/-- `_source_files` -/
def sourceFiles (source : StoreEnd) : Except MoveRefused (List StoreFile × String) :=
  match source.kind with
  | .localDisk => match v.listing with
    | .ok files => .ok files
    | .error error =>
      let text := if error = "" then "the models directory is not readable" else error
      .error { message := text, code := "no-source" }
  | .library => match Assoc.get v.library source.id with
    | some (files, path) => .ok (files, if path = "" then source.path else path)
    | none => .error ⟨"no such library: " ++ source.id, "no-source", 404⟩

end View

/-! ### The plan -/

/-- `by_path`: of two entries with one path, the last. -/
def byPath (files : List StoreFile) (rel : String) : Option StoreFile :=
  files.reverse.find? fun f => f.path = rel

/-- `entry.get("group") or rel` -/
def StoreFile.key (f : StoreFile) : String := if f.group = "" then f.path else f.group

/-- The keys of the picked paths, each once. -/
def keysOf (place : String) (files : List StoreFile) :
    List String → List String → Except MoveRefused (List String)
  | keys, [] => .ok keys
  | keys, rel :: wanted => match byPath files rel with
    | none => .error ⟨"not in " ++ place ++ ": " ++ rel, "unknown-file", 404⟩
    | some entry =>
      keysOf place files (if entry.key ∈ keys then keys else keys ++ [entry.key]) wanted

/-- The entry of a key, where it is a folder's. -/
def folderOf (files : List StoreFile) (key : String) : Option StoreFile :=
  (byPath files key).filter fun picked => picked.kind ≠ ""

def members (files : List StoreFile) (key : String) : List StoreFile :=
  (files.filter fun f => f.key = key ∧ f.kind = "").insertionSort fun a b => a.path ≤ b.path

/-- The paths one key stands for. -/
def claimed (files : List StoreFile) (key : String) : List String :=
  match folderOf files key with
  | some _ => [key]
  | none => (members files key).map StoreFile.path

namespace View

variable (v : View)

/-- The two checks of one file of a group. -/
def checkMember (source : EndKind) (root : String) (busy : List String) (m : StoreFile) :
    Except MoveRefused Unit := do
  refuseIf (m.path ∈ busy) { message := "already moving: " ++ m.path, code := "busy" }
  refuseIf (source = .localDisk ∧ v.is_link (within root m.path))
    { message := "a link, not a file: " ++ m.path, code := "link" }

/-- The item of one key. -/
def planItem (source : EndKind) (root : String) (busy : List String) (files : List StoreFile)
    (key : String) : Except MoveRefused (MoveItem D) :=
  match folderOf files key with
  | some picked => do
    refuseIf (key ∈ busy) { message := "already moving: " ++ key, code := "busy" }
    return newItem key [] key picked.size
  | none => do
    (members files key).forM (v.checkMember source root busy)
    return newItem key ((members files key).map fun m => newFile m.path m.size
      (if source = .localDisk then some (v.stamp (within root m.path)) else none)) "" 0

/-- The bytes one key stands for. -/
def keySize (files : List StoreFile) (key : String) : ℕ :=
  match folderOf files key with
  | some picked => picked.size
  | none => ((members files key).map StoreFile.size).sum

/-- Where a file that is not in the source is said to be missing. -/
def place (source : StoreEnd) : String :=
  if source.kind = .localDisk then "the models disk"
  else if source.name = "" then source.id else source.name

/-- `": {detail}"`, where there is one -/
def because (detail : String) : String := if detail = "" then "" else ": " ++ detail

/-- `state in ("ok", "low-space")` -/
def usable (state : String) : Bool := state = "ok" ∨ state = "low-space"

/-- `source_id or StoreRegistry.LOCAL_ID` -/
def sourceId (r : Request) : String := ((r.source_id).filter (· ≠ "")).getD "local"

/-- The paths of a request after cleaning. -/
def wanted (r : Request) : List String := (r.paths.map cleaned).filter (· ≠ "")

/-- What is asked of the target once the items are known. -/
def checkTarget (target : StoreEnd) (total : ℕ) : Except MoveRefused Unit := do
  let name := if target.name = "" then "the store" else target.name
  refuseIf (¬ usable target.state)
    { message := name ++ " is " ++ target.state ++ because target.detail,
      code := "target-" ++ target.state }
  refuseIf (target.free.all (· < total + SPACE_MARGIN))
    { message := name ++ " has no room: the move needs " ++ v.gigabytes total ++ " GB and " ++
        toString (SPACE_MARGIN / 2 ^ 30) ++ " GB to spare",
      code := "no-room" }

/-- `MovePlanner.plan`, of the id drawn for the job. -/
def plan (id : String) (busy : List String) (r : Request) : Except MoveRefused (MoveJob D) := do
  refuseIf (wanted r = []) ⟨"nothing to move", "empty", 400⟩
  let source ← v.findEnd (sourceId r) "source"
  let target ← v.findEnd r.target_id "target"
  refuseIf (source.id = target.id) ⟨"that is where they already are", "same-store", 400⟩
  refuseIf (¬ usable source.state)
    { message := "the store they sit in is " ++ source.state ++ because source.detail,
      code := "source-" ++ source.state }
  let (files, root) ← v.sourceFiles source
  let keys ← keysOf (place source) files [] (wanted r)
  let items ← keys.mapM (v.planItem source.kind root busy files)
  let reading := v.reading (items.flatMap MoveItem.rels ++
    (items.filter fun item => item.folder ≠ "").map MoveItem.folder)
  refuseIf (reading ≠ [])
    { message := "a running cell reads it: " ++ joined reading, code := "in-use" }
  v.checkTarget target (keys.map (keySize files)).sum
  return { id, source := ⟨source.id, root, source.kind⟩,
           target := ⟨target.id, target.path, target.kind⟩, items,
           status := .queued, reason := "", finishedAt := 0, cancel := false }

/-- The paths a request picks: those of its keys, where each of its paths is in the source. -/
def picks (r : Request) : List String :=
  let known := do
    let source ← v.findEnd (sourceId r) "source"
    let (files, _) ← v.sourceFiles source
    let keys ← keysOf (place source) files [] (wanted r)
    return keys.flatMap (claimed files)
  match known with
  | .ok paths => paths
  | .error _ => []

/-! ### A plan that is made -/

theorem checkMember_ok {source : EndKind} {root : String} {busy : List String} {m : StoreFile}
    {u : Unit} (h : v.checkMember source root busy m = .ok u) : m.path ∉ busy := by
  obtain ⟨_, hbusy, -⟩ := Except.bind_eq_ok h
  exact refuseIf_ok hbusy

theorem members_free {source : EndKind} {root : String} {busy : List String}
    {ms : List StoreFile} {u : Unit} (h : ms.forM (v.checkMember source root busy) = .ok u) :
    ∀ m ∈ ms, m.path ∉ busy := by
  induction ms with
  | nil => exact fun m hm => absurd hm List.not_mem_nil
  | cons a ms ih =>
    change (v.checkMember source root busy a >>= fun _ => ms.forM _) = .ok u at h
    obtain ⟨_, ha, h⟩ := Except.bind_eq_ok h
    intro m hm
    cases List.mem_cons.mp hm with
    | inl hm => exact hm ▸ v.checkMember_ok ha
    | inr hm => exact ih h m hm

/-- What an item was planned for is what its key stands for, and none of it is busy. -/
theorem planItem_ok {source : EndKind} {root : String} {busy : List String}
    {files : List StoreFile} {key : String} {item : MoveItem D}
    (h : v.planItem source root busy files key = .ok item) :
    (∀ p ∈ item.cover, p ∈ claimed files key ∧ p ∉ busy) ∧ item.Tidy := by
  cases hf : folderOf files key with
  | some picked =>
    simp only [planItem, hf] at h
    obtain ⟨_, hbusy, h⟩ := Except.bind_eq_ok h
    cases h
    refine ⟨fun p hp => ?_, fun _ r hr => absurd hr (by simp [newItem, MoveItem.rels])⟩
    have hp : p = key := by
      by_cases hk : key = "" <;> simp_all [MoveItem.cover, newItem, MoveItem.rels]
    subst hp
    exact ⟨by simp [claimed, hf], refuseIf_ok hbusy⟩
  | none =>
    simp only [planItem, hf] at h
    obtain ⟨_, hfree, h⟩ := Except.bind_eq_ok h
    cases h
    refine ⟨fun p hp => ?_, fun hne => absurd rfl hne⟩
    have hp : p ∈ (members files key).map StoreFile.path := by
      simpa [MoveItem.cover, newItem, MoveItem.rels, newFile] using hp
    refine ⟨by simpa [claimed, hf] using hp, ?_⟩
    obtain ⟨m, hm, rfl⟩ := List.mem_map.mp hp
    exact v.members_free hfree m hm

/-- **A plan holds nothing busy**, as the paths are written: what its items stand for is
what the request picks. -/
theorem plan_free {id : String} {busy : List String} {r : Request} {job : MoveJob D}
    (h : v.plan id busy r = .ok job) :
    job.id = id ∧ job.finished = false ∧ job.Tidy ∧
      ∀ p ∈ job.cover, p ∈ v.picks r ∧ p ∉ busy := by
  obtain ⟨_, -, h⟩ := Except.bind_eq_ok h
  obtain ⟨source, hsource, h⟩ := Except.bind_eq_ok h
  obtain ⟨target, -, h⟩ := Except.bind_eq_ok h
  obtain ⟨_, -, h⟩ := Except.bind_eq_ok h
  obtain ⟨_, -, h⟩ := Except.bind_eq_ok h
  obtain ⟨⟨files, root⟩, hfiles, h⟩ := Except.bind_eq_ok h
  obtain ⟨keys, hkeys, h⟩ := Except.bind_eq_ok h
  obtain ⟨items, hitems, h⟩ := Except.bind_eq_ok h
  obtain ⟨_, -, h⟩ := Except.bind_eq_ok h
  obtain ⟨_, -, h⟩ := Except.bind_eq_ok h
  cases h
  have hpicks : v.picks r = keys.flatMap (claimed files) := by
    simp [picks, hsource, hfiles, hkeys, bind, Except.bind, pure, Except.pure]
  have hitem : ∀ item ∈ items, ∃ key ∈ keys,
      v.planItem source.kind root busy files key = .ok item :=
    fun item hmem => Except.mem_mapM hitems hmem
  refine ⟨rfl, rfl, fun item hmem => ?_, fun p hp => ?_⟩
  · obtain ⟨key, -, hok⟩ := hitem item hmem
    exact (v.planItem_ok hok).2
  · obtain ⟨item, hmem, hp⟩ := List.mem_flatMap.mp hp
    obtain ⟨key, hkey, hok⟩ := hitem item hmem
    obtain ⟨hclaimed, hfree⟩ := (v.planItem_ok hok).1 p hp
    exact ⟨hpicks ▸ List.mem_flatMap.mpr ⟨key, hkey, hclaimed⟩, hfree⟩

end View

end StoreMoves
