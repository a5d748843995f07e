import Caravan.StoreMoves.Item

/-!
# Whole runs, process after process

A job outlives its process: `lives` runs one `life` after another, each on a
script of its own and each from the manifest its predecessor left. The scripts
are arbitrary, so every state a move can be in after any failures, losses,
cancels and crashes is the end of some `lives`, and what is proved of that end
holds at every step.

`lives_inv` carries the invariant over them, from a job as it is planned
(`Planned`). `lives_keep` and `lives_carry` read off what a move promises of file
models and of folders.
-/

namespace StoreMoves

open Crash Prog World Relation Mover Io

variable {D : Type} [DecidableEq D] {orig : Origin} {plain : Prop}

/-! ### One process -/

omit [DecidableEq D] in
theorem sound_finish (status : JobStatus) :
    Sound orig plain (fun _ : World D => True) (finish status) (fun _ _ => True)
      (fun _ => True) := by
  have hfinal : ∀ now, Moves (Quiet plain) (setJob fun job : MoveJob D =>
      { job with status, reason := "", finishedAt := now }) :=
    fun _ => Moves.quiet (moves_setJob fun job => JobStep.refl job)
  exact Sound.of_moves (moves_read.bind fun now => (hfinal now).bind fun _ => moves_save.quiet)
    (Stable.const _)

theorem sound_runItems {sha : Bytes → D} (hsha : Function.Injective sha) (bypasses : Bool)
    (is : List ℕ) :
    Sound orig plain (fun _ : World D => True) (runItems sha bypasses is) (fun _ _ => True)
      (fun _ => True) := by
  induction is with
  | nil => exact Sound.ret fun _ _ _ => trivial
  | cons i is ih =>
    refine sound_jobItem fun item _ => Sound.ite (fun _ => ?_) fun _ => ?_
    · exact Sound.bind ((sound_runItem hsha bypasses i).pre fun _ _ _ => trivial) fun _ => ih
    · exact ih.pre fun _ _ _ => trivial

theorem sound_run {sha : Bytes → D} (hsha : Function.Injective sha) (bypasses : Bool) :
    Sound orig plain (fun _ : World D => True) (run sha bypasses) (fun _ _ => True)
      (fun _ => True) := by
  have hany : Stable orig plain (Quiet plain) (fun _ : World D => True) := Stable.const _
  have hne : ItemState.cancelled ≠ .done := by decide
  have hrunning : Moves (Quiet plain) (setJob fun job : MoveJob D =>
      { job with status := .running, reason := "" }) :=
    Moves.quiet (moves_setJob fun job => JobStep.refl job)
  have hcancel : ∀ i : ℕ, Moves (Quiet plain) (do
      if !(← jobItem i).state.final then
        let _ ← close i .cancelled "" "" : Mover D Unit) := fun i =>
    (moves_jobItem i).bind fun item => Moves.ite
      (fun _ => (moves_close i hne _ _).bind fun _ => moves_ret) fun _ => moves_ret
  refine Sound.bind (Q := fun _ _ => True) (Sound.read fun _ _ _ => trivial) fun n =>
    Sound.bind (Q := fun _ _ => True) ?_ fun status => sound_finish status
  refine holds_handle (M := fun _ => Inv orig plain fun _ => True) ?_ fun x => ?_
  · exact (Sound.of_moves moves_checkCancel hany).bind fun _ =>
      (Sound.of_moves hrunning hany).bind fun _ => (Sound.of_moves moves_save.quiet hany).bind
      fun _ => (sound_runItems hsha bypasses _).bind fun _ => Sound.ret fun _ _ _ => trivial
  · cases x with
    | cancelled =>
      exact (Sound.of_moves (moves_each hcancel _) hany).bind fun _ => Sound.ret fun _ _ h => h
    | os x => exact Sound.raise fun _ _ h => h

theorem sound_work {sha : Bytes → D} (hsha : Function.Injective sha) (bypasses : Bool) :
    Sound orig plain (fun _ : World D => True) (work sha bypasses) (fun _ _ => True)
      (fun _ => True) := by
  refine Sound.exceptOs (sound_run hsha bypasses) (fun x => ?_) fun _ _ h => h
  have hfailed : ∀ now, Moves (Quiet plain) (setJob fun job : MoveJob D =>
      { job with status := .failed, reason := x.text, finishedAt := now }) :=
    fun _ => Moves.quiet (moves_setJob fun job => JobStep.refl job)
  exact Sound.of_moves (moves_read.bind fun now => (hfailed now).bind fun _ => moves_save.quiet)
    (Stable.const _)

/-- A process starts from the manifest, and the manifest is as good as the memory. -/
theorem sound_life {sha : Bytes → D} (hsha : Function.Injective sha) (bypasses : Bool) :
    Sound orig plain (fun _ : World D => True) (life sha bypasses) (fun _ _ => True)
      (fun _ => True) := by
  have hqueued : Moves (Quiet plain) (setJob fun job : MoveJob D =>
      { job with status := .queued, reason := "" }) :=
    Moves.quiet (moves_setJob fun job => JobStep.refl job)
  have hload : Sound orig plain (fun _ : World D => True)
      (.assign fun w => { w with job := MoveJob.fromJson w.saved }) (fun _ _ => True)
      (fun _ => True) := by
    refine holds_assign fun w hw => hw.write (fun _ hp => ⟨hp.2, hp.2⟩) rfl rfl rfl
      fun _ hc _ => ⟨?_, trivial⟩
    exact hc.setJob (fun item hi => hc.saved item hi) fun hp ht item hi => hc.savedDone hp ht item hi
  refine hload.bind fun _ => Sound.bind (Q := fun _ _ => True)
    (Sound.read fun _ _ _ => trivial) fun fin => Sound.ite (fun _ => ?_) fun _ =>
    Sound.ret fun _ _ _ => trivial
  exact (Sound.of_moves hqueued (Stable.const _)).bind fun _ => sound_work hsha bypasses

/-! ### Process after process -/

/-- The world after one process after another, each on its own script. -/
def lives (sha : Bytes → D) (bypasses : Bool) (scripts : List (List Event)) (w : World D) :
    World D :=
  scripts.foldl (fun w es => (life sha bypasses es w).st) w

theorem life_inv {sha : Bytes → D} (hsha : Function.Injective sha) (bypasses : Bool)
    (es : List Event) {w : World D} (h : Inv orig plain (fun _ => True) w) :
    Inv orig plain (fun _ => True) (life sha bypasses es w).st := by
  have hlife : Sound orig plain (fun _ => True) (life sha bypasses) (fun _ _ => True)
      fun _ => True := sound_life hsha bypasses
  have := hlife es w h
  revert this
  rcases life sha bypasses es w with ⟨out, es', w'⟩
  cases out <;> exact id

/-- **The invariant of whole runs.** -/
theorem lives_inv {sha : Bytes → D} (hsha : Function.Injective sha) (bypasses : Bool)
    (scripts : List (List Event)) {w : World D} (h : Inv orig plain (fun _ => True) w) :
    Inv orig plain (fun _ => True) (lives sha bypasses scripts w) := by
  induction scripts generalizing w with
  | nil => exact h
  | cons es scripts ih => exact ih (life_inv hsha bypasses es h)

/-- The stamps of a tree's files, each with the content it stands for. -/
def stamps (t : Tree) : List ((String × Stamp) × Bytes) :=
  t.filterMap fun p => (fileAt t p.1).map fun n => ((p.1, n.stamp), n.content)

omit [DecidableEq D] in
theorem mem_stamps {t : Tree} {x : (String × Stamp) × Bytes} :
    x ∈ stamps t ↔ ∃ p n, fileAt t p = some n ∧ x = ((p, n.stamp), n.content) := by
  unfold stamps
  simp only [List.mem_filterMap, Option.map_eq_some_iff]
  constructor
  · rintro ⟨p, -, n, hn, rfl⟩
    exact ⟨p.1, n, hn, rfl⟩
  · rintro ⟨p, n, hn, rfl⟩
    exact ⟨(p, .file n), Assoc.mem_of_get (fileAt_eq_some.mp hn), n, hn, rfl⟩

/-- A job as it is planned, in a world where nothing of it has happened yet: its
items are pending, a folder's files are not known yet, no file bears a temporary
name, and what stands at the target stands on its disk. -/
structure Planned (w : World D) : Prop where
  pending : ∀ item ∈ w.job.items, item.state = .pending ∧ item.scanned = false ∧
    item.links = [] ∧ (item.folder ≠ "" → item.files = []) ∧
    ∀ f ∈ item.files, f.state = .pending ∧ ¬ IsPart f.rel
  saved : w.saved = w.job.toJson
  bareSource : BareDirs w.source.bare
  bareTarget : BareDirs w.target.bare
  distinct : Assoc.Distinct w.source.tree
  solid : AllSolid w.target.tree
  seen : w.seen = stamps w.source.tree
  fresh : w.faults = [] ∧ w.removals = []

/-- What the invariant of a planned job remembers. -/
def World.origin (w : World D) : Origin := ⟨w.source.tree, w.job.items.map MoveItem.rels⟩

omit [DecidableEq D] in
theorem Planned.inv {w : World D} (h : Planned w)
    (hplain : plain → ∀ item ∈ w.job.items, item.folder = "") :
    Inv w.origin plain (fun _ => True) w := by
  have hitems : w.saved.items = w.job.items := by rw [h.saved]; rfl
  have hok : ∀ item ∈ w.job.items, ItemOk w item := by
    intro item hi
    obtain ⟨-, hsc, hl, hfold, hf⟩ := h.pending item hi
    refine ⟨fun f hm => (hf f hm).2, by simp [hl], fun f hm hs => ?_, fun _ hs => ?_,
      fun hne f hm => ?_⟩
    · exact absurd hs (by simp [(hf f hm).1])
    · exact absurd hs (by simp [hsc])
    · rw [hfold hne] at hm
      simp at hm
  have hdone : ∀ item ∈ w.job.items, DoneHeld w.origin w item := fun item hi hs =>
    absurd hs (by simp [(h.pending item hi).1])
  refine ⟨fun hp => ⟨⟨hplain hp, rfl⟩, by rw [hitems]; exact ⟨hplain hp, rfl⟩⟩,
    fun _ _ => by simp [h.fresh.1], fun _ => ?_, fun _ => by simp [h.fresh.2], fun _ => trivial⟩
  refine ⟨h.bareSource, h.bareTarget, h.distinct, h.solid, fun p n hn => ?_, fun k c c' hc hc' => ?_,
    hok, hitems ▸ hok, fun _ _ => ⟨fun _ _ hn => hn, fun p st c hc => ?_, fun _ _ hn => .inl hn⟩,
    fun _ _ => hdone, fun _ _ => hitems ▸ hdone⟩
  · rw [h.seen]
    exact mem_stamps.mpr ⟨p, n, hn, rfl⟩
  · rw [h.seen] at hc hc'
    obtain ⟨p, n, hn, he⟩ := mem_stamps.mp hc
    obtain ⟨p', n', hn', he'⟩ := mem_stamps.mp hc'
    obtain ⟨rfl, rfl⟩ := Prod.mk.inj he
    obtain ⟨hk, rfl⟩ := Prod.mk.inj he'
    obtain rfl : p = p' := (Prod.mk.inj hk).1
    obtain rfl : n = n' := by simpa using hn.symm.trans hn'
    rfl
  · rw [h.seen] at hc
    obtain ⟨p', n, hn, he⟩ := mem_stamps.mp hc
    obtain ⟨hk, rfl⟩ := Prod.mk.inj he
    obtain ⟨rfl, rfl⟩ := Prod.mk.inj hk
    exact ⟨n, hn, rfl, rfl⟩

/-! ### Small worlds -/

/-- A disk of the coordinator and a library, with a job of these items between them. -/
def smallWorld (source target : Tree) (items : List (MoveItem Bytes)) : World Bytes :=
  let job : MoveJob Bytes :=
    { id := "job", source := ⟨"local", "/models", .localDisk⟩,
      target := ⟨"lib", "/library", .library⟩, items, status := .queued, reason := "",
      finishedAt := 0, cancel := false }
  { source := ⟨source, [], true, ""⟩, target := ⟨target, [], true, ""⟩, job,
    saved := job.toJson, now := 1000, seen := stamps source, walked := [], calm := true,
    touched := false, faults := [], removals := [] }

def confirmed (content : Bytes) (mtime : ℕ) : Node := .file ⟨content, mtime, content.length⟩

/-- A file model, and what may stand under its name at the target. -/
def oneFile (target : Tree) : World Bytes :=
  smallWorld [("m.gguf", confirmed [1, 2] 7)] target
    [newItem "m.gguf" [newFile "m.gguf" 2 (some ⟨2, 7⟩)] "" 2]

/-- A folder with one file. -/
def oneFolder : World Bytes :=
  smallWorld [("fam", .dir), ("fam/m.gguf", confirmed [1, 2] 7)] []
    [newItem "fam" [] "fam" 2]

/-- An operation around which two minutes and these things pass. -/
def during (around : List Around) : Event :=
  { Event.quiet with around := .tick 120 :: around, answer := false }

def calmly (n : ℕ) : List Event := List.replicate n (during [])

theorem bareDirs_nil : BareDirs [] := fun _ _ h => by simp at h

theorem planned_oneFile : Planned (oneFile []) where
  pending := by decide
  saved := rfl
  bareSource := bareDirs_nil
  bareTarget := bareDirs_nil
  distinct := by unfold Assoc.Distinct; decide
  solid := fun p n _ h => by simp [oneFile, smallWorld, fileAt] at h
  seen := rfl
  fresh := ⟨rfl, rfl⟩

theorem planned_oneFolder : Planned oneFolder where
  pending := by decide
  saved := rfl
  bareSource := bareDirs_nil
  bareTarget := bareDirs_nil
  distinct := by unfold Assoc.Distinct; decide
  solid := fun p n _ h => by simp [oneFolder, smallWorld, fileAt] at h
  seen := rfl
  fresh := ⟨rfl, rfl⟩

/-! ### File models -/

/-- The target holds this content under this name. -/
def AtTarget (w : World D) (rel : String) (c : Bytes) : Prop :=
  ∃ n, fileAt w.target.tree rel = some n ∧ n.content = c

/-- **No model is lost.** Whatever happens, as long as nobody else writes the
source and no copy is begun under the mount point of a lost store: a planned file
is at its source as it was, or at the target with its content; and the planned
files of an item that was closed as done are at the target. -/
theorem lives_keep {sha : Bytes → D} (hsha : Function.Injective sha) (bypasses : Bool)
    (scripts : List (List Event)) {w : World D} (h : Planned w)
    (hplain : ∀ item ∈ w.job.items, item.folder = "")
    (huntouched : (lives sha bypasses scripts w).touched = false)
    (hastray : Fault.copyAstray ∉ (lives sha bypasses scripts w).faults) (i : ℕ)
    {f : MoveFile D} (hf : f ∈ (w.job.item i).files) {n₀ : FileNode}
    (hn : fileAt w.source.tree f.rel = some n₀) :
    (fileAt (lives sha bypasses scripts w).source.tree f.rel = some n₀ ∨
      AtTarget (lives sha bypasses scripts w) f.rel n₀.content) ∧
    (((lives sha bypasses scripts w).job.item i).state = .done →
      AtTarget (lives sha bypasses scripts w) f.rel n₀.content) := by
  have hstart : Inv w.origin True (fun _ => True) w := h.inv fun _ => hplain
  have hinv := lives_inv hsha bypasses scripts hstart
  generalize lives sha bypasses scripts w = w' at *
  have hclear : w'.faults = [] := by
    refine List.eq_nil_iff_forall_not_mem.mpr fun x hx => hastray ?_
    rwa [hinv.faults trivial huntouched x hx] at hx
  have hc := hinv.core hclear
  have hheld : ∀ {p : String}, Held w' p n₀ → AtTarget w' p n₀.content :=
    fun ⟨_, n, hn, _, hcont⟩ => ⟨n, hn, hcont⟩
  refine ⟨((hc.untouched trivial huntouched).kept f.rel n₀ hn).imp id hheld, fun hdone => ?_⟩
  -- the item has the files it was planned with
  have hi : i < w'.job.items.length := by
    by_contra hge
    rw [MoveJob.item_of_le (by omega)] at hdone
    simp [newItem] at hdone
  have hrels : (w'.job.item i).rels = (w.job.item i).rels := by
    have hmap := (hinv.shape trivial).1.rels
    have hlen : w'.job.items.length = w.job.items.length := by
      simpa [World.origin] using congrArg List.length hmap
    have := congrArg (fun l => l[i]?) hmap
    simp only [World.origin, List.getElem?_map, List.getElem?_eq_getElem hi,
      List.getElem?_eq_getElem (hlen ▸ hi), Option.map_some, Option.some.injEq] at this
    rw [MoveJob.item, MoveJob.item, List.getD_eq_getElem _ _ hi,
      List.getD_eq_getElem _ _ (hlen ▸ hi)]
    exact this
  have hmem : f.rel ∈ (w'.job.item i).rels := hrels ▸ List.mem_map.mpr ⟨f, hf, rfl⟩
  obtain ⟨f', hf', hrel⟩ := List.mem_map.mp hmem
  exact hrel ▸ hheld (hc.jobDone trivial huntouched _ (MoveJob.item_mem hi) hdone f' hf' n₀
    (hrel ▸ hn))

/-- A process that dies in the middle of the copy, a lost tail of the part file,
and the process after it. -/
def crashed : List (List Event) :=
  [calmly 14, during [.tear "m.gguf.caravan-part" [9]] :: calmly 60]

theorem lives_keep_crash :
    fileAt (lives id false crashed (oneFile [])).source.tree "m.gguf" = none ∧
    AtTarget (lives id false crashed (oneFile [])) "m.gguf" [1, 2] := by
  have hmodel : fileAt (oneFile []).source.tree "m.gguf" = some ⟨[1, 2], 7, 2⟩ := by decide
  have hplanned : newFile "m.gguf" 2 (some ⟨2, 7⟩) ∈ ((oneFile []).job.item 0).files := by
    decide
  exact ⟨by decide +kernel, (lives_keep Function.injective_id false crashed planned_oneFile
    (by decide) (by decide +kernel) (by decide +kernel) 0 hplanned hmodel).2
    (by decide +kernel)⟩

/-- The library is lost behind each of the two looks at its mark before a model is
taken from its source. -/
def flapping : List (List Event) :=
  [calmly 5 ++ during [.lose .target ""] :: calmly 24 ++
    during [.find .target] :: calmly 2 ++ during [.lose .target ""] :: calmly 5]

/-- A job ends as done with its model left where it was, when the name is taken at
the target; and a flapping library leaves the model on neither store. -/
theorem lives_keep_not_done :
    ((lives id false [calmly 60] (oneFile [("m.gguf", confirmed [3] 5)])).job.status = .done ∧
      ¬ AtTarget (lives id false [calmly 60] (oneFile [("m.gguf", confirmed [3] 5)]))
        "m.gguf" [1, 2]) ∧
    (fileAt (lives id false flapping (oneFile [])).source.tree "m.gguf" = none ∧
      ¬ AtTarget (lives id false flapping (oneFile [])) "m.gguf" [1, 2]) := by
  have hnot : ∀ {w : World Bytes} {n : Option FileNode}, fileAt w.target.tree "m.gguf" = n →
      (∀ m, n = some m → m.content ≠ [1, 2]) → ¬ AtTarget w "m.gguf" [1, 2] :=
    fun h hne ⟨m, hm, hc⟩ => hne m (h.symm.trans hm) hc
  have hother : fileAt (lives id false [calmly 60]
      (oneFile [("m.gguf", confirmed [3] 5)])).target.tree "m.gguf" = some ⟨[3], 5, 1⟩ := by
    decide +kernel
  have hnone : fileAt (lives id false flapping (oneFile [])).target.tree "m.gguf" = none := by
    decide +kernel
  refine ⟨⟨by decide +kernel, hnot hother ?_⟩, by decide +kernel, hnot hnone (by simp)⟩
  rintro m ⟨⟩
  decide

/-! ### Folders -/

/-- **A folder move removes only what it carried**, in every run without a fault. -/
theorem lives_carry {sha : Bytes → D} (hsha : Function.Injective sha) (bypasses : Bool)
    (scripts : List (List Event)) {w : World D} (h : Planned w)
    (hfaults : (lives sha bypasses scripts w).faults = []) :
    ∀ r ∈ (lives sha bypasses scripts w).removals, Carried r := by
  have hstart : Inv w.origin False (fun _ => True) w := h.inv fun h => h.elim
  exact (lives_inv hsha bypasses scripts hstart).carried hfaults

theorem lives_carry_oneFolder :
    (lives id false [calmly 60] oneFolder).removals.length = 1 ∧
      ∀ r ∈ (lives id false [calmly 60] oneFolder).removals, Carried r :=
  ⟨by decide +kernel, lives_carry Function.injective_id false [calmly 60] planned_oneFolder
    (by decide +kernel)⟩

/-- Somebody puts a link into the folder after its scan. -/
def linking : List (List Event) :=
  [calmly 12 ++ during [.edit "fam/latest" (some (.link "m.gguf"))] :: calmly 60]

/-- The link goes with its folder: the last look compares the files alone. -/
theorem not_carried_link :
    ∃ r ∈ (lives id false linking oneFolder).removals, ¬ Carried r := by
  have hremoved : (⟨"fam", [("fam/latest", .link "m.gguf"), ("fam", .dir),
      ("fam/m.gguf", confirmed [1, 2] 7)], [("fam/m.gguf", confirmed [1, 2] 7),
      ("fam", .dir)]⟩ : Removal) ∈ (lives id false linking oneFolder).removals := by
    decide +kernel
  refine ⟨_, hremoved, fun h => ?_⟩
  exact absurd ((h "fam/latest" "latest" (by decide)).2 "m.gguf" (by decide)) (by decide)

end StoreMoves
