import Caravan.Framework.FileTree
import Caravan.Ports.Registers
import Caravan.Python.Int
import Caravan.Stores.Paths

/-!
# The clean-up of the models directory

`delete_models` takes paths under the models directory and removes a file, or an artifact folder,
at each. What the cells name is compared with the path as it is written; what is removed is what
the path resolves to.

* `deleteAll_stands` — what a call leaves, over its steps: what stood and lies under no path that
  a step removed;
* `spares_iff` — nothing in use is lost exactly when every path that resolves to something in use,
  or to a folder over it, is written as a cell writes it;
* `dotted_removed` — "./model.gguf" is not.
-/

namespace ModelGc

open Python Stores FileTree
open Ports (AppError)

abbrev Files := Node Text

/-! ### Names -/

/-- The names of a path as `pathlib` keeps them; none is the step up. -/
def parts (t : Text) : List (Option Text) :=
  let names : List Text := (t.splitOn slash).filter fun p => p ≠ [] ∧ p ≠ Text.of "."
  names.map fun p => if p = Text.of ".." then none else some p

/-- `t.lstrip("/")` -/
def lstripSlash (t : Text) : Text := t.dropWhile (· = slash)

/-- `t.rstrip("/")` -/
def rstripSlash (t : Text) : Text := t.rdropWhile (· = slash)

def endswith (suffix t : Text) : Bool := suffix.isSuffixOf t

variable (I : Interp)

/-- `_part_group`, of a text that was stripped: the suffix of a part is twenty characters long. -/
def part_group (rel : Text) : Text :=
  let stem := rel.take (rel.length - 20)
  let suffix := rel.drop (rel.length - 20)
  let digits (t : Text) : Bool := t.all fun c => (I.digit c).isSome
  if stem ≠ [] ∧ codePoint '\n' ∉ stem ∧ suffix.take 1 = "-" ∧ digits ((suffix.drop 1).take 5) ∧
      ((suffix.drop 6).take 4).map lowerAscii = "-of-" ∧ digits ((suffix.drop 10).take 5) ∧
      (suffix.drop 15).map lowerAscii = ".gguf" then
    stem ++ Text.of "-*-of-" ++ (suffix.drop 10).take 5 ++ Text.of ".gguf"
  else rel

/-! ### What the cells name -/

/-- A slot: its model and its settings, each as `str(value or "")`. -/
structure Slot where
  model : Text
  config : List (Text × Text)

structure Cells where
  /-- `str(models_dir_from_config(config))` -/
  modelsDir : Text
  /-- The settings of the controller's own configuration. -/
  legacy : List (Text × Text)
  slots : List Slot

/-- `str(cfg.get(key) or "").strip()` -/
def field (config : List (Text × Text)) (key : Text) : Text := ((config.lookup key).getD []).strip

/-- `add` of `_referenced_relpaths` -/
def ref (value : Text) : List Text :=
  let v := lstripSlash value.strip
  if v = [] then [] else [v]

/-- The fields that name one file each. -/
def FILE_FIELDS : List Text := ["MODEL_FILE", "MMPROJ_FILE", "SPEC_DRAFT_MODEL_FILE"]

/-- The directory of a whisper cell's model. -/
def whisperDir (config : List (Text × Text)) : Text :=
  let size := field config "WHISPER_MODEL"
  Text.of "whisper/models--Systran--faster-whisper-" ++
    if size = [] then Text.of "large-v3" else size

def isWhisper (config : List (Text × Text)) : Bool :=
  (field config "RUNNER").map lowerAscii = "whisper"

/-- `_referenced_relpaths` -/
def referenced_relpaths (cells : Cells) : List Text :=
  let top := rstripSlash cells.modelsDir ++ [slash]
  FILE_FIELDS.flatMap (fun key => ref (field cells.legacy key)) ++
    cells.slots.flatMap fun slot =>
      let vm := rstripSlash (field slot.config "VLLM_MODEL")
      ref slot.model ++ FILE_FIELDS.flatMap (fun key => ref (field slot.config key)) ++
        (if top.isPrefixOf vm then ref (vm.drop top.length) else []) ++
        if isWhisper slot.config then ref (whisperDir slot.config) else []

/-! ### The artifact folders -/

/-- `hidden` -/
def hidden (name : Text) : Bool :=
  match name.head? with
  | some c => c = codePoint '.' || c = codePoint '#' || c = codePoint '@'
  | none => false

/-- `artifact_kind` is not blank, of the path from the root and the names of the files. -/
def isArtifact (rel : Path) (names : List Text) : Bool :=
  match rel with
  | [] => false
  | [a, b] => (a = "whisper" && (Text.of "models--").isPrefixOf b) ||
      names.any (endswith ".safetensors")
  | _ => names.any (endswith ".safetensors")

/-- The names that `os.walk` gives as files: a link to a directory is none. -/
def fileNames (linksToDir : Path → Bool) (rel : Path) (entries : List (Text × Files)) : List Text :=
  entries.filterMap fun e =>
    if hidden e.1 then none
    else match e.2 with
      | .file _ => some e.1
      | .link _ => if linksToDir (rel ++ [e.1]) then none else some e.1
      | .dir _ => none

mutual

/-- `artifact_dirs` from a directory on: the outermost folders. -/
def artifact_dirs (linksToDir : Path → Bool) (rel : Path) : Files → List Path
  | .dir entries =>
    if isArtifact rel (fileNames linksToDir rel entries) then [rel]
    else artifactDirsIn linksToDir rel entries
  | _ => []

def artifactDirsIn (linksToDir : Path → Bool) (rel : Path) : List (Text × Files) → List Path
  | [] => []
  | (name, node) :: entries =>
    (if hidden name then [] else artifact_dirs linksToDir (rel ++ [name]) node) ++
      artifactDirsIn linksToDir rel entries

end

mutual

/-- The size of `folder_weight`. -/
def folder_weight : Files → ℕ
  | .dir entries => folderWeightIn entries
  | _ => 0

def folderWeightIn : List (Text × Files) → ℕ
  | [] => 0
  | (name, node) :: entries =>
    (if hidden name then 0
      else match node with
        | .file size => size
        | .link _ => 0
        | .dir inner => folderWeightIn inner) + folderWeightIn entries

end

/-! ### The call -/

/-- What a call of `delete_models` raises. -/
inductive Failure where
  | app (e : AppError)
  | python (e : Error)
  /-- `resolve` goes in a circle. -/
  | loop
  deriving DecidableEq

/-- What the system decides: how far it follows links, what it does not let be removed, and the
words of its errors. -/
structure Os where
  links : ℕ
  locked : Path → Bool
  words : Path → Text

/-- What `delete_models` knows before it begins. -/
structure Known where
  modelsDir : Path
  refs : List Text
  ref_groups : List Text
  artifact_rels : List Text

variable (os : Os)

/-- A path of the list, as it is checked. -/
structure Asked where
  rel : Text
  is_artifact_dir : Bool
  target : Path

/-- The checks of a path before it is compared with the cells. -/
def ask (k : Known) (fs : Files) (item : Value) : Except Failure Asked := do
  let text ← (strOf I (item.or "")).mapError Failure.python
  let rel := lstripSlash text.strip
  let is_artifact_dir := decide (rstripSlash rel ∈ k.artifact_rels)
  if !endswith ".gguf" rel && !is_artifact_dir then
    .error (.app ⟨Text.of "not a gguf or a known artifact folder: " ++ rel, 400⟩)
  else
    match resolve os.links fs (k.modelsDir.map some ++ parts rel) with
    | none => .error .loop
    | some target =>
      if !k.modelsDir.isPrefixOf target then
        .error (.app ⟨Text.of "path escapes the models dir: " ++ rel, 400⟩)
      else .ok ⟨rel, is_artifact_dir, target⟩

/-- `rel in refs or _part_group(rel) in ref_groups` -/
def Known.names (k : Known) (rel : Text) : Bool :=
  decide (rel ∈ k.refs) || decide (part_group I rel ∈ k.ref_groups)

/-- How the removal of a path ends. -/
inductive Removal where
  | removed (size : ℕ)
  /-- `FileNotFoundError` -/
  | missing
  | failed
  deriving DecidableEq

/-- A file stands where a directory of the path would be. -/
def blocked (fs : Files) (p : Path) : Bool :=
  p.inits.any fun q => q ≠ p && match get q fs with
    | some (.file _) => true
    | _ => false

/-- The removal itself, of a resolved path; the root of the system does not go. -/
def removal (fs : Files) (a : Asked) : Removal :=
  match get a.target fs with
  | none => if blocked fs a.target then .failed else .missing
  | some node =>
    if os.locked a.target || a.target.isEmpty then .failed
    else match node, a.is_artifact_dir with
      | .dir _, true => .removed (folder_weight node)
      | .file size, false => .removed size
      | _, _ => .failed

/-- One path of the list: what it leaves, and what is deleted of it, if it raises nothing. -/
def deleteOne (k : Known) (fs : Files) (item : Value) :
    Files × Except Failure (Option (Text × ℕ)) :=
  match ask I os k fs item with
  | .error e => (fs, .error e)
  | .ok a =>
    if k.names I a.rel then
      (fs, .error (.app ⟨Text.of "refusing to delete a referenced model: " ++ a.rel, 409⟩))
    else match removal os fs a with
      | .removed size => (remove a.target fs, .ok (some (a.rel, size)))
      | .missing => (fs, .ok none)
      | .failed => (fs, .error (.app ⟨Text.of "delete failed for " ++ a.rel ++ Text.of ": " ++
          os.words a.target, 500⟩))

/-- What `delete_models` returns, the bytes not yet rounded to gigabytes. -/
structure Deleted where
  deleted : List Text
  freed : ℕ
  deriving DecidableEq

/-- The loop of `delete_models`. -/
def deleteAll (k : Known) (fs : Files) : List Value → Deleted → Files × Except Failure Deleted
  | [], d => (fs, .ok d)
  | item :: items, d =>
    match deleteOne I os k fs item with
    | (fs', .error e) => (fs', .error e)
    | (fs', .ok none) => deleteAll k fs' items d
    | (fs', .ok (some (rel, size))) => deleteAll k fs' items ⟨d.deleted ++ [rel], d.freed + size⟩

/-- What stands at the end of a link is a directory. -/
def linksToDir (fs : Files) (p : Path) : Bool :=
  match (resolve os.links fs (p.map some)).bind fun q => get q fs with
  | some (.dir _) => true
  | _ => false

/-- What `delete_models` reads before its loop. -/
def known (cells : Cells) (fs : Files) : Option Known :=
  (resolve os.links fs (parts cells.modelsDir)).map fun modelsDir =>
    let refs := referenced_relpaths cells
    { modelsDir, refs
      ref_groups := refs.map (part_group I)
      artifact_rels := match get modelsDir fs with
        | some node =>
          (artifact_dirs (fun rel => linksToDir os fs (modelsDir ++ rel)) [] node).map join
        | none => [] }

/-- `delete_models` -/
def delete_models (cells : Cells) (fs : Files) (files : Value) : Files × Except Failure Deleted :=
  match files with
  | .list (item :: items) =>
    match known I os cells fs with
    | none => (fs, .error .loop)
    | some k => deleteAll I os k fs (item :: items) ⟨[], 0⟩
  | _ => (fs, .error (.app ⟨"files must be a non-empty list", 400⟩))

/-! ### What is in use -/

/-- The paths that cells name under the models directory: the three files, the folders of the
runners that name one beside them, and a whisper cell's directory. -/
def Cells.relative (cells : Cells) : List Text :=
  (FILE_FIELDS.map (field cells.legacy) ++ cells.slots.flatMap fun slot =>
    slot.model.strip :: FILE_FIELDS.map (field slot.config) ++
      [field slot.config "GR00T_BACKBONE"] ++
        if isWhisper slot.config then [whisperDir slot.config] else []).filter (· ≠ [])

/-- The folders that cells name by their absolute path. -/
def Cells.absolute (cells : Cells) : List Text :=
  (cells.slots.flatMap fun slot =>
    [field slot.config "VLLM_MODEL", field slot.config "TRANSLATE_MODEL"]).filter isabs

def Cells.paths (cells : Cells) : List (List (Option Text)) :=
  cells.relative.map (fun v => parts cells.modelsDir ++ parts v) ++ cells.absolute.map parts

/-- Where the last name of a path stands: a link there is not followed. -/
def entry (fs : Files) (p : List (Option Text)) : Option Path :=
  match p.getLast? with
  | some (some name) => (resolve os.links fs p.dropLast).map (· ++ [name])
  | _ => resolve os.links fs p

/-- What a cell's config names stands here, or what that resolves to. -/
def Named (cells : Cells) (fs : Files) (q : Path) : Prop :=
  ∃ p ∈ cells.paths, entry os fs p = some q ∨ resolve os.links fs p = some q

/-- In use: what is named, and the parts of its multi-part group. -/
def InUse (cells : Cells) (fs : Files) (q : Path) : Prop :=
  Named os cells fs q ∨ ∃ dir r part, resolve os.links fs (parts cells.modelsDir) = some dir ∧
    Named os cells fs (dir ++ r) ∧ part_group I (join part) = part_group I (join r) ∧
      (q = dir ++ part ∨ resolve os.links fs ((dir ++ part).map some) = some q)

/-- What a list of paths comes to: the tree before each path that is reached. -/
def reached (k : Known) : Files → List Value → List (Files × Value)
  | _, [] => []
  | fs, item :: items => (fs, item) ::
    match deleteOne I os k fs item with
    | (_, .error _) => []
    | (fs', .ok _) => reached k fs' items

/-- The condition on a path of the list: where it resolves to something of `U` that is there, or to
a folder over it, and nothing else stands against its removal, it is written as a cell writes it. -/
def Spelled (k : Known) (U : Path → Prop) (fs : Files) (item : Value) : Prop :=
  ∀ a size, ask I os k fs item = .ok a → removal os fs a = .removed size →
    (∃ q, U q ∧ Stands fs q ∧ a.target <+: q) → k.names I a.rel = true

/-! ### What a call leaves -/

variable {I os} {k : Known} {fs : Files} {item : Value} {items : List Value} {U : Path → Prop}

theorem removal_target {a : Asked} {size : ℕ} (h : removal os fs a = .removed size) :
    a.target ≠ [] := by
  intro he
  unfold removal at h
  rw [he] at h
  split at h
  · split at h <;> exact nomatch h
  · rw [List.isEmpty_nil, Bool.or_true, if_pos rfl] at h
    exact nomatch h

/-- **One path.** Either the tree stays as it is, or the path was asked for and is not one that a
cell writes, and what it resolves to goes. -/
theorem deleteOne_cases (I : Interp) (os : Os) (k : Known) (fs : Files) (item : Value) :
    ((deleteOne I os k fs item).1 = fs ∧
        (∀ a size, ask I os k fs item = .ok a → removal os fs a = .removed size →
          k.names I a.rel = true) ∧
        ∀ out, (deleteOne I os k fs item).2 ≠ .ok (some out)) ∨
      ∃ a size, ask I os k fs item = .ok a ∧ removal os fs a = .removed size ∧
        k.names I a.rel = false ∧
        deleteOne I os k fs item = (remove a.target fs, .ok (some (a.rel, size))) := by
  unfold deleteOne
  cases hask : ask I os k fs item with
  | error e => exact .inl ⟨rfl, fun a _ ha => (nomatch ha), fun _ h => (nomatch h)⟩
  | ok a =>
    dsimp only
    cases hnames : k.names I a.rel with
    | true =>
      rw [if_pos rfl]
      refine .inl ⟨rfl, fun b _ hb _ => ?_, fun _ h => nomatch h⟩
      obtain rfl := Except.ok.inj hb
      exact hnames
    | false =>
      rw [if_neg Bool.false_ne_true]
      cases hrem : removal os fs a with
      | removed size => exact .inr ⟨a, size, rfl, hrem, hnames, rfl⟩
      | missing =>
        refine .inl ⟨rfl, fun b size hb hr => ?_, fun _ h => nomatch h⟩
        obtain rfl := Except.ok.inj hb
        rw [hrem] at hr
        exact nomatch hr
      | failed =>
        refine .inl ⟨rfl, fun b size hb hr => ?_, fun _ h => nomatch h⟩
        obtain rfl := Except.ok.inj hb
        rw [hrem] at hr
        exact nomatch hr

theorem deleteOne_stands {q : Path} (h : Stands (deleteOne I os k fs item).1 q) : Stands fs q := by
  rcases deleteOne_cases I os k fs item with ⟨he, -, -⟩ | ⟨a, size, -, -, -, he⟩
  · rwa [he] at h
  · rw [he] at h
    exact h.of_remove

/-- The loop goes on from what a path leaves. -/
theorem deleteAll_cons (I : Interp) (os : Os) (k : Known) (fs : Files) (item : Value)
    (items : List Value) (d : Deleted) :
    (deleteAll I os k fs (item :: items) d).1 = (deleteOne I os k fs item).1 ∧
        (∃ e, (deleteOne I os k fs item).2 = .error e) ∨
      ∃ d' x, (deleteOne I os k fs item).2 = .ok x ∧
        (deleteAll I os k fs (item :: items) d).1 =
          (deleteAll I os k (deleteOne I os k fs item).1 items d').1 := by
  rw [deleteAll]
  split
  · next fs' e he => exact .inl ⟨by rw [he], e, by rw [he]⟩
  · next fs' he => exact .inr ⟨d, none, by rw [he], by rw [he]⟩
  · next fs' rel size he => exact .inr ⟨_, some (rel, size), by rw [he], by rw [he]⟩

/-- Nothing comes to stand that did not. -/
theorem deleteAll_stands {q : Path} {d : Deleted} (h : Stands (deleteAll I os k fs items d).1 q) :
    Stands fs q := by
  induction items generalizing fs d with
  | nil => exact h
  | cons item items ih =>
    rcases deleteAll_cons I os k fs item items d with ⟨he, -⟩ | ⟨d', x, -, he⟩
    · rw [he] at h
      exact deleteOne_stands h
    · rw [he] at h
      exact deleteOne_stands (ih h)

/-- What is spared of the first path, and of those after it. -/
theorem spelled_iff {q : Path → Prop} :
    (∀ p, q p → Stands fs p → Stands (deleteOne I os k fs item).1 p) ↔
      Spelled I os k q fs item := by
  rcases deleteOne_cases I os k fs item with
    ⟨he, hsame, -⟩ | ⟨a, size, hask, hrem, hnames, he⟩
  · rw [he]
    exact iff_of_true (fun _ _ h => h) fun a size ha hr _ => hsame a size ha hr
  · rw [he]
    constructor
    · rintro hspared b size' hb hr ⟨p, hp, hstands, hcovers⟩
      obtain rfl := Except.ok.inj (hask.symm.trans hb)
      have := (stands_remove (removal_target hrem) fs p).mp (hspared p hp hstands)
      exact absurd hcovers this.2
    · intro hspelled p hp hstands
      refine (stands_remove (removal_target hrem) fs p).mpr ⟨hstands, fun hcovers => ?_⟩
      rw [hspelled a size hask hrem ⟨p, hp, hstands, hcovers⟩] at hnames
      exact Bool.noConfusion hnames

/-- **The loop** spares what it is to spare exactly when each path that is reached does. -/
theorem deleteAll_spares (d : Deleted) :
    (∀ q, U q → Stands fs q → Stands (deleteAll I os k fs items d).1 q) ↔
      ∀ x ∈ reached I os k fs items, Spelled I os k U x.1 x.2 := by
  induction items generalizing fs d with
  | nil => exact iff_of_true (fun _ _ h => h) fun _ hx => absurd hx List.not_mem_nil
  | cons item items ih =>
    rw [reached, List.forall_mem_cons]
    rcases deleteAll_cons I os k fs item items d with ⟨he, e, hraise⟩ | ⟨d', x, hok, he⟩
    · -- the path raises, and none is reached after it
      have hnone : (match deleteOne I os k fs item with
          | (_, .error _) => []
          | (fs', .ok _) => reached I os k fs' items) = [] := by
        rw [← Prod.eta (deleteOne I os k fs item), hraise]
      rw [he, hnone, spelled_iff]
      simp
    · have hrest : (match deleteOne I os k fs item with
          | (_, .error _) => []
          | (fs', .ok _) => reached I os k fs' items) =
          reached I os k (deleteOne I os k fs item).1 items := by
        rw [← Prod.eta (deleteOne I os k fs item), hok]
      rw [he, hrest, ← spelled_iff, ← ih d']
      constructor
      · intro hall
        exact ⟨fun q hq hs => deleteAll_stands (hall q hq hs),
          fun q hq hs => hall q hq (deleteOne_stands hs)⟩
      · rintro ⟨hfirst, hothers⟩ q hq hs
        exact hothers q hq (hfirst q hq hs)

/-- **What is in use is spared** by a call exactly when each path that is reached, and that is not
refused for its kind or its place and could be removed, is written as a cell writes it where it
resolves to something in use, or to a folder over it. -/
theorem spares_iff (I : Interp) (os : Os) (cells : Cells) (fs : Files) (files : Value) :
    (∀ q, InUse I os cells fs q → Stands fs q →
        Stands (delete_models I os cells fs files).1 q) ↔
      ∀ k, known I os cells fs = some k → ∀ x ∈ reached I os k fs files.asList,
        Spelled I os k (InUse I os cells fs) x.1 x.2 := by
  cases files with
  | list items =>
    cases items with
    | nil => exact iff_of_true (fun _ _ h => h) fun _ _ _ hx => absurd hx List.not_mem_nil
    | cons item items =>
      rw [delete_models]
      cases hk : known I os cells fs with
      | none => exact iff_of_true (fun _ _ h => h) fun _ hk => nomatch hk
      | some k =>
        dsimp only
        rw [deleteAll_spares]
        constructor
        · rintro h _ hk'
          obtain rfl := Option.some.inj hk'
          exact h
        · exact fun h => h k rfl
  | _ => exact iff_of_true (fun _ _ h => h) fun _ _ _ hx => absurd hx List.not_mem_nil

/-! ### Calls that raise, and calls that return -/

/-- A path of the list that is there, and that nothing stands against. -/
def Goes (I : Interp) (os : Os) (k : Known) (fs : Files) (item : Value) (a : Asked) : Prop :=
  ask I os k fs item = .ok a ∧ (∃ size, removal os fs a = .removed size) ∧
    k.names I a.rel = false

/-- A removal has something to remove. -/
theorem Goes.stands {a : Asked} (h : Goes I os k fs item a) : Stands fs a.target := by
  obtain ⟨-, ⟨size, hrem⟩, -⟩ := h
  unfold removal at hrem
  cases hget : get a.target fs with
  | none =>
    rw [hget] at hrem
    dsimp only at hrem
    split at hrem <;> exact nomatch hrem
  | some node =>
    unfold Stands
    rw [hget]
    rfl

/-- A call has removed nothing exactly when no path that was reached goes. -/
theorem keepsAll_iff (d : Deleted) :
    (∀ q, Stands fs q → Stands (deleteAll I os k fs items d).1 q) ↔
      ∀ x ∈ reached I os k fs items, ∀ a, ¬Goes I os k x.1 x.2 a := by
  have hall : (∀ q, True → Stands fs q → Stands (deleteAll I os k fs items d).1 q) ↔
      ∀ x ∈ reached I os k fs items, Spelled I os k (fun _ => True) x.1 x.2 :=
    deleteAll_spares d
  simp only [true_implies] at hall
  rw [hall]
  refine forall₂_congr fun x _ => ⟨fun h a hgoes => ?_, fun h a size hask hrem _ => ?_⟩
  · obtain ⟨hask, ⟨size, hrem⟩, hnames⟩ := hgoes
    have hstands : Stands x.1 a.target := Goes.stands ⟨hask, ⟨size, hrem⟩, hnames⟩
    rw [h a size hask hrem ⟨a.target, trivial, hstands, List.prefix_rfl⟩] at hnames
    exact Bool.noConfusion hnames
  · by_contra hnames
    exact h a ⟨hask, ⟨size, hrem⟩, Bool.eq_false_of_not_eq_true hnames⟩

/-- **What is reported is removed.** -/
theorem deleteAll_returns {d d' : Deleted} (h : (deleteAll I os k fs items d).2 = .ok d') :
    ∀ rel ∈ d'.deleted, rel ∈ d.deleted ∨ ∃ x ∈ reached I os k fs items, ∃ a,
      Goes I os k x.1 x.2 a ∧ a.rel = rel ∧ ¬Stands (deleteAll I os k fs items d).1 a.target := by
  induction items generalizing fs d with
  | nil =>
    obtain rfl := Except.ok.inj h
    exact fun rel hrel => .inl hrel
  | cons item items ih =>
    intro rel hrel
    rw [deleteAll] at h ⊢
    rw [reached]
    rcases deleteOne_cases I os k fs item with
      ⟨hsame, -, hnone⟩ | ⟨a, size, hask, hrem, hnames, he⟩
    · -- the call goes on, and this path is not reported
      cases hone : deleteOne I os k fs item with
      | mk fs' out =>
        rw [hone] at h hsame hnone
        cases out with
        | error e => exact nomatch h
        | ok out =>
          cases out with
          | some pair => exact absurd rfl (hnone pair)
          | none =>
            rcases ih h rel hrel with hd | ⟨x, hx, b, hb⟩
            · exact .inl hd
            · exact .inr ⟨x, List.mem_cons_of_mem _ hx, b, hb⟩
    · rw [he] at h ⊢
      dsimp only at h ⊢
      rcases ih h rel hrel with hd | ⟨x, hx, b, hb⟩
      · rcases List.mem_append.mp hd with hd | hd
        · exact .inl hd
        · obtain rfl := List.mem_singleton.mp hd
          refine .inr ⟨(fs, item), List.mem_cons_self, a, ⟨hask, ⟨size, hrem⟩, hnames⟩, rfl, ?_⟩
          intro hstands
          exact ((stands_remove (removal_target hrem) fs a.target).mp
            (deleteAll_stands hstands)).2 List.prefix_rfl
      · exact .inr ⟨x, List.mem_cons_of_mem _ hx, b, hb⟩

/-- A call that raises has removed nothing exactly when no path that was reached goes. -/
theorem delete_models_keepsAll (I : Interp) (os : Os) (cells : Cells) (fs : Files) (files : Value) :
    (∀ q, Stands fs q → Stands (delete_models I os cells fs files).1 q) ↔
      ∀ k, known I os cells fs = some k → ∀ x ∈ reached I os k fs files.asList,
        ∀ a, ¬Goes I os k x.1 x.2 a := by
  cases files with
  | list items =>
    cases items with
    | nil => exact iff_of_true (fun _ h => h) fun _ _ _ hx => absurd hx List.not_mem_nil
    | cons item items =>
      rw [delete_models]
      cases hk : known I os cells fs with
      | none => exact iff_of_true (fun _ h => h) fun _ hk => nomatch hk
      | some k =>
        dsimp only
        rw [keepsAll_iff]
        constructor
        · rintro h _ hk'
          obtain rfl := Option.some.inj hk'
          exact h
        · exact fun h => h k rfl
  | _ => exact iff_of_true (fun _ h => h) fun _ _ _ hx => absurd hx List.not_mem_nil

/-- What a call that returns reports was there, and is no more. -/
theorem delete_models_returns {cells : Cells} {files : Value} {d : Deleted}
    (h : (delete_models I os cells fs files).2 = .ok d) :
    ∀ rel ∈ d.deleted, ∃ k, known I os cells fs = some k ∧
      ∃ x ∈ reached I os k fs files.asList, ∃ a, Goes I os k x.1 x.2 a ∧ a.rel = rel ∧
        ¬Stands (delete_models I os cells fs files).1 a.target := by
  cases files with
  | list items =>
    cases items with
    | nil => exact nomatch h
    | cons item items =>
      rw [delete_models] at h ⊢
      cases hk : known I os cells fs with
      | none =>
        rw [hk] at h
        exact nomatch h
      | some k =>
        rw [hk] at h
        intro rel hrel
        rcases deleteAll_returns h rel hrel with hnone | hgone
        · exact absurd hnone List.not_mem_nil
        · exact ⟨k, rfl, hgone⟩
  | _ => exact nomatch h

/-! ### A path written with a dot -/

def openOs : Os := ⟨40, fun _ => false, fun _ => []⟩

/-- A models directory with one model. -/
def oneModel : Files := .dir [("models", .dir [("a.gguf", .file 7)])]

/-- A cell that runs it. -/
def oneCell : Cells := ⟨"/models", [], [⟨"a.gguf", []⟩]⟩

/-- **"./a.gguf"** is no path that the cell writes, and the cell's model is gone. -/
theorem dotted_removed :
    InUse Interp.ascii openOs oneCell oneModel ["models", "a.gguf"] ∧
      Stands oneModel ["models", "a.gguf"] ∧
      (delete_models Interp.ascii openOs oneCell oneModel (.list [.str "./a.gguf"])).2 =
        .ok ⟨["./a.gguf"], 7⟩ ∧
      ¬Stands (delete_models Interp.ascii openOs oneCell oneModel (.list [.str "./a.gguf"])).1
        ["models", "a.gguf"] := by
  have hname : Text.of "a.gguf" ∈ oneCell.relative :=
    List.mem_filter.mpr ⟨List.mem_append_right _ (List.mem_flatMap.mpr
      ⟨_, List.mem_singleton_self _, List.mem_cons_self⟩), rfl⟩
  refine ⟨.inl ⟨parts "/models" ++ parts "a.gguf", ?_, .inr ?_⟩, ?_, ?_, ?_⟩
  · exact List.mem_append_left _ (List.mem_map_of_mem hname)
  · rfl
  · decide
  · decide +kernel
  · decide +kernel

end ModelGc
