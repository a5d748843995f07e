import Caravan.StoreMoves.Invariant

/-!
# The steps that keep the invariant

`Look` and `Quiet` list what a mover does at the places where nothing is decided:
`Look` what it does without writing to a store, `Quiet` the writes that leave
every final name alone as well. `Inv.quiet` is the one argument that they keep
the invariant, with the change of the source by somebody else (`Core.edit`) as
its longest case; the operations and methods that move by these steps only are
then shown to (`moves_…`).
-/

namespace StoreMoves

open Crash World Relation

variable {D : Type}

/-! ### The two relations -/

inductive Look (plain : Prop) : World D → World D → Prop where
  | around (w : World D) (a : Around) : Look plain w (around1 w a)
  | job (w : World D) (job : MoveJob D) (h : JobStep w.job job) :
      Look plain w { w with job := job }
  | save (w : World D) : Look plain w { w with saved := w.job.toJson }
  /-- A folder's own faults: there is none without a folder. -/
  | fault (w : World D) (f : Fault) (h : ¬ plain) : Look plain w (w.fault f)

inductive Quiet (plain : Prop) : World D → World D → Prop where
  | look {w w' : World D} (h : Look plain w w') : Quiet plain w w'
  | target (w : World D) (t : Tree) (h : TreeStep w.target.tree t) :
      Quiet plain w { w with target := { w.target with tree := t } }
  | bare (w : World D) (t : Tree) (h : BareDirs w.target.bare → BareDirs t) :
      Quiet plain w { w with target := { w.target with bare := t } }
  | astray (w : World D) (s : Store) (f : Fault) (h : plain → f = .copyAstray) :
      Quiet plain w { w with target := s, faults := f :: w.faults }
  /-- An empty directory of the source goes. -/
  | prune (w : World D) (t : Tree)
      (h : ∀ p n, Assoc.get t p = some n → Assoc.get w.source.tree p = some n)
      (hf : ∀ p n, fileAt w.source.tree p = some n → fileAt t p = some n)
      (hd : Assoc.Distinct w.source.tree → Assoc.Distinct t) :
      Quiet plain w { w with source := { w.source with tree := t } }
  | bareSource (w : World D) (t : Tree) (h : BareDirs w.source.bare → BareDirs t) :
      Quiet plain w { w with source := { w.source with bare := t } }

/-! ### Frames of what happens around an operation -/

section Frames

variable {w : World D}

theorem faultIf_nil {c : Prop} [Decidable c] {f : Fault}
    (h : (w.faultIf c f).faults = []) : ¬ c ∧ w.faultIf c f = w := by
  unfold faultIf fault at h ⊢
  split at h
  · simp at h
  · next hc => exact ⟨hc, if_neg hc⟩

section

variable (c : Prop) [Decidable c] (f : Fault)

@[simp] theorem faultIf_job : (w.faultIf c f).job = w.job := by unfold faultIf; split <;> rfl

@[simp] theorem faultIf_saved : (w.faultIf c f).saved = w.saved := by
  unfold faultIf; split <;> rfl

@[simp] theorem faultIf_source : (w.faultIf c f).source = w.source := by
  unfold faultIf; split <;> rfl

@[simp] theorem faultIf_target : (w.faultIf c f).target = w.target := by
  unfold faultIf; split <;> rfl

theorem faultIf_faults : ∃ l, (w.faultIf c f).faults = l ++ w.faults := by
  unfold faultIf World.fault
  split
  · exact ⟨[f], rfl⟩
  · exact ⟨[], rfl⟩

end

@[simp] theorem edit_job (path : String) (node : Option Node) :
    (w.edit path node).job = w.job := by
  rcases node with _ | (f | t | _ | _) <;> simp [edit]

@[simp] theorem edit_saved (path : String) (node : Option Node) :
    (w.edit path node).saved = w.saved := by
  rcases node with _ | (f | t | _ | _) <;> simp [edit]

theorem edit_faults (path : String) (node : Option Node) :
    ∃ l, (w.edit path node).faults = l ++ w.faults := by
  rcases node with _ | (f | t | _ | _) <;>
    first | exact ⟨[], rfl⟩ | exact faultIf_faults _ _

/-- The source after a change of one path. -/
def editTree (t : Tree) (path : String) : Option Node → Tree
  | some n => Assoc.put t path n
  | none => Assoc.del t path

/-- The stamps on record after a change of one path. -/
def editSeen (seen : List ((String × Stamp) × Bytes)) (path : String) :
    Option Node → List ((String × Stamp) × Bytes)
  | some (.file f) => ((path, f.stamp), f.content) :: seen
  | _ => seen

theorem mem_editSeen {seen : List ((String × Stamp) × Bytes)} {path : String}
    {node : Option Node} {x : (String × Stamp) × Bytes} :
    x ∈ editSeen seen path node ↔
      x ∈ seen ∨ ∃ f, node = some (.file f) ∧ x = ((path, f.stamp), f.content) := by
  rcases node with _ | (f | _ | _ | _) <;> simp [editSeen, or_comm]

/-- An edit that raised no fault: what it leaves, and what it cannot have been. -/
structure Edited (w : World D) (path : String) (node : Option Node) (w' : World D) : Prop where
  faults : w.faults = []
  tree : w'.source.tree = editTree w.source.tree path node
  bare : w'.source.bare = w.source.bare
  target : w'.target = w.target
  job : w'.job = w.job
  saved : w'.saved = w.saved
  walked : w'.walked = w.walked
  removals : w'.removals = w.removals
  seen : w'.seen = editSeen w.seen path node
  newStamp : ∀ f, node = some (.file f) → ∀ c, ((path, f.stamp), c) ∉ w.seen
  calm : w'.calm = false
  outside : ∀ t, node = some (.link t) → ∀ d ∈ w.walked, inside? d path = none

theorem edited {path : String} {node : Option Node} (h : (w.edit path node).faults = []) :
    Edited w path node (w.edit path node) := by
  unfold edit at h ⊢
  cases node with
  | none => exact ⟨h, rfl, rfl, rfl, rfl, rfl, rfl, rfl, rfl, by simp, rfl, by simp⟩
  | some node =>
    cases node with
    | file f =>
      obtain ⟨hc, he⟩ := faultIf_nil h
      dsimp only at h ⊢
      rw [he] at h ⊢
      refine ⟨h, rfl, rfl, rfl, rfl, rfl, rfl, rfl, rfl, ?_, rfl, by simp⟩
      rintro f' ⟨⟩ c hm
      exact hc ⟨_, hm, rfl⟩
    | link t =>
      obtain ⟨hc, he⟩ := faultIf_nil h
      dsimp only at h ⊢
      rw [he] at h ⊢
      refine ⟨h, rfl, rfl, rfl, rfl, rfl, rfl, rfl, rfl, by simp, rfl, ?_⟩
      rintro t' ⟨⟩ d hd
      by_contra hne
      exact hc ⟨d, hd, Option.isSome_iff_ne_none.mpr hne⟩
    | dir => exact ⟨h, rfl, rfl, rfl, rfl, rfl, rfl, rfl, rfl, by simp, rfl, by simp⟩
    | other => exact ⟨h, rfl, rfl, rfl, rfl, rfl, rfl, rfl, rfl, by simp, rfl, by simp⟩

theorem get_editTree {t : Tree} {path q : String} {node : Option Node} {n : Node}
    (h : Assoc.get (editTree t path node) q = some n) :
    Assoc.get t q = some n ∨ (q = path ∧ node = some n) := by
  cases node with
  | none =>
    rw [editTree, Assoc.get_del] at h
    split at h
    · simp at h
    · exact .inl h
  | some node =>
    rw [editTree, Assoc.get_put] at h
    split at h
    · next he => exact .inr ⟨he, h⟩
    · exact .inl h

end Frames

/-! ### The invariant is kept -/

/-- What a step other than an edit does to the trees: the source only loses. -/
structure Shrink (w w' : World D) : Prop where
  source : ∀ p n, Assoc.get w'.source.tree p = some n → Assoc.get w.source.tree p = some n
  distinct : Assoc.Distinct w.source.tree → Assoc.Distinct w'.source.tree
  bareSource : BareDirs w.source.bare → BareDirs w'.source.bare
  bareTarget : BareDirs w.target.bare → BareDirs w'.target.bare
  target : TreeStep w.target.tree w'.target.tree
  seen : w'.seen = w.seen
  walked : ∀ x ∈ w.walked, x ∈ w'.walked
  touched : w'.touched = w.touched

theorem Shrink.file {w w' : World D} (h : Shrink w w') {p : String} {n : FileNode}
    (hn : fileAt w'.source.tree p = some n) : fileAt w.source.tree p = some n := by
  rw [fileAt_eq_some] at hn ⊢
  exact h.source p _ hn

theorem Shrink.onward {w w' : World D} (h : Shrink w w') : Onward w w' where
  seen := fun _ hx => h.seen ▸ hx
  walked := h.walked
  source := fun _ _ hn => .inl (h.file hn)
  links := fun p _ ht => .inl (h.source p _ ht)
  target := fun _ _ hp hf => hf.step hp h.target

section Core

variable {orig : Origin} {plain : Prop} {w w' : World D}

/-- The items of a record come, up to volatile fields, from given ones. -/
def FromItems (its its' : List (MoveItem D)) : Prop :=
  ∀ b ∈ its', ∃ a ∈ its, ItemStep a b

theorem FromItems.refl (its : List (MoveItem D)) : FromItems its its :=
  fun b hb => ⟨b, hb, ItemStep.refl b⟩

theorem JobStep.fromItems {a b : MoveJob D} (h : JobStep a b) : FromItems a.items b.items :=
  fun _ hb => List.Forall₂.of_mem_right h hb

theorem Core.shrink (h : Core orig plain w) (hw : Shrink w w')
    (hjob : FromItems w.job.items w'.job.items)
    (hsaved : FromItems (w.job.items ++ w.saved.items) w'.saved.items)
    (hkept : plain → w.touched = false → ∀ p n₀, fileAt w.source.tree p = some n₀ →
      fileAt w'.source.tree p = some n₀ ∨ Held w' p n₀) : Core orig plain w' where
  bareSource := hw.bareSource h.bareSource
  bareTarget := hw.bareTarget h.bareTarget
  distinct := hw.distinct h.distinct
  solid := h.solid.step hw.target
  stamped := fun p n hn => hw.seen ▸ h.stamped p n (hw.file hn)
  single := hw.seen ▸ h.single
  job := fun b hb => by
    obtain ⟨a, ha, hs⟩ := hjob b hb
    exact ((h.job a ha).onward hw.onward).step hs
  saved := fun b hb => by
    obtain ⟨a, ha, hs⟩ := hsaved b hb
    rcases List.mem_append.mp ha with ha | ha
    · exact ((h.job a ha).onward hw.onward).step hs
    · exact ((h.saved a ha).onward hw.onward).step hs
  untouched := fun hp ht => by
    rw [hw.touched] at ht
    have hu := h.untouched hp ht
    refine ⟨fun p n hn => hu.same p n (hw.file hn), hw.seen ▸ hu.seen, fun p n₀ h₀ => ?_⟩
    rcases hu.kept p n₀ h₀ with hk | hk
    · exact hkept hp ht p n₀ hk
    · exact .inr (hk.onward hw.onward)
  jobDone := fun hp ht b hb => by
    rw [hw.touched] at ht
    obtain ⟨a, ha, hs⟩ := hjob b hb
    have hd : DoneHeld orig w' a :=
      fun hst f hf n₀ hn => (h.jobDone hp ht a ha hst f hf n₀ hn).onward hw.onward
    exact hd.step hs
  savedDone := fun hp ht b hb => by
    rw [hw.touched] at ht
    obtain ⟨a, ha, hs⟩ := hsaved b hb
    have hd : DoneHeld orig w' a := fun hst f hf n₀ hn => by
      rcases List.mem_append.mp ha with ha | ha
      · exact (h.jobDone hp ht a ha hst f hf n₀ hn).onward hw.onward
      · exact (h.savedDone hp ht a ha hst f hf n₀ hn).onward hw.onward
    exact hd.step hs

theorem Edited.onward {path : String} {node : Option Node} (h : Edited w path node w') :
    Onward w w' := by
  refine ⟨fun x hx => ?_, fun _ hx => h.walked ▸ hx, fun q n hn => ?_, fun q t ht => ?_, ?_⟩
  · rw [h.seen]
    exact mem_editSeen.mpr (.inl hx)
  · rw [fileAt_eq_some, h.tree] at hn
    rcases get_editTree hn with hq | ⟨rfl, hq⟩
    · exact .inl (fileAt_eq_some.mpr hq)
    · exact .inr (h.newStamp n hq)
  · rw [h.tree] at ht
    rcases get_editTree ht with hq | ⟨rfl, hq⟩
    · exact .inl hq
    · exact .inr (h.outside t hq)
  · rw [h.target]
    exact fun _ _ _ hf => hf

theorem Core.edit {path : String} {node : Option Node} (h : Core orig plain w)
    (he : Edited w path node w') (htouched : w'.touched = true) : Core orig plain w' where
  bareSource := he.bare ▸ h.bareSource
  bareTarget := he.target ▸ h.bareTarget
  distinct := by
    rw [he.tree]
    cases node with
    | none => exact h.distinct.del path
    | some n => exact h.distinct.put path n
  solid := he.target ▸ h.solid
  stamped := fun p n hn => by
    rw [fileAt_eq_some, he.tree] at hn
    rcases get_editTree hn with hq | ⟨rfl, rfl⟩
    · exact he.onward.seen _ (h.stamped p n (fileAt_eq_some.mpr hq))
    · rw [he.seen]
      exact mem_editSeen.mpr (.inr ⟨n, rfl, rfl⟩)
  single := fun k c c' hc hc' => by
    rw [he.seen, mem_editSeen] at hc hc'
    -- a new record stands under a key that had none
    rcases hc with hc | ⟨f, hf, hk⟩ <;> rcases hc' with hc' | ⟨f', hf', hk'⟩
    · exact h.single k c c' hc hc'
    · obtain ⟨rfl, rfl⟩ := Prod.mk.inj hk'
      exact absurd hc (he.newStamp f' hf' c)
    · obtain ⟨rfl, rfl⟩ := Prod.mk.inj hk
      exact absurd hc' (he.newStamp f hf c')
    · obtain rfl : f = f' := by simpa using hf.symm.trans hf'
      exact (Prod.mk.inj hk).2.trans (Prod.mk.inj hk').2.symm
  job := fun a ha => (h.job a (he.job ▸ ha)).onward he.onward
  saved := fun a ha => (h.saved a (he.saved ▸ ha)).onward he.onward
  untouched := fun _ ht => absurd ht (by simp [htouched])
  jobDone := fun _ ht => absurd ht (by simp [htouched])
  savedDone := fun _ ht => absurd ht (by simp [htouched])

/-- A step that changes neither tree nor what is recorded of them. -/
theorem Shrink.of_eq (hs : w'.source.tree = w.source.tree) (hb : w'.source.bare = w.source.bare)
    (ht : w'.target.tree = w.target.tree) (hc : w'.target.bare = w.target.bare)
    (hseen : w'.seen = w.seen) (hwalked : w'.walked = w.walked)
    (htouched : w'.touched = w.touched) : Shrink w w' where
  source := fun _ _ h => hs ▸ h
  distinct := fun h => hs ▸ h
  bareSource := fun h => hb ▸ h
  bareTarget := fun h => hc ▸ h
  target := ht ▸ TreeStep.refl _
  seen := hseen
  walked := fun _ h => hwalked ▸ h
  touched := htouched

/-- A step of the record or of the stores that leaves the source's files alone. -/
structure Still (w w' : World D) : Prop where
  shrink : Shrink w w'
  kept : ∀ p n, fileAt w.source.tree p = some n → fileAt w'.source.tree p = some n
  job : FromItems w.job.items w'.job.items
  saved : FromItems (w.job.items ++ w.saved.items) w'.saved.items
  removals : w'.removals = w.removals
  calm : w'.calm = w.calm

theorem FromItems.right (its its' : List (MoveItem D)) : FromItems (its ++ its') its' :=
  fun b hb => ⟨b, List.mem_append_right _ hb, ItemStep.refl b⟩

theorem FromItems.left (its its' : List (MoveItem D)) : FromItems (its ++ its') its :=
  fun b hb => ⟨b, List.mem_append_left _ hb, ItemStep.refl b⟩

/-- Only what happens around an operation changes the source, and only by an edit. -/
theorem around_still (a : Around) (hsolid : AllSolid w.target.tree) :
    (∃ path node, around1 w a = w.edit path node) ∨
      (Still w (around1 w a) ∧ (around1 w a).faults = w.faults) := by
  cases a with
  | edit path node => exact .inl ⟨path, node, rfl⟩
  | cancel written =>
    refine .inr ⟨⟨.of_eq rfl rfl rfl rfl rfl rfl rfl, fun _ _ h => h, FromItems.refl _, ?_, rfl,
      rfl⟩, rfl⟩
    change FromItems _ (if written = true then _ else w.saved).items
    split
    · exact FromItems.left _ _
    · exact FromItems.right _ _
  | lose side found =>
    cases side <;>
      exact .inr ⟨⟨.of_eq rfl rfl rfl rfl rfl rfl rfl, fun _ _ h => h, FromItems.refl _,
        FromItems.right _ _, rfl, rfl⟩, rfl⟩
  | find side =>
    cases side <;>
      exact .inr ⟨⟨.of_eq rfl rfl rfl rfl rfl rfl rfl, fun _ _ h => h, FromItems.refl _,
        FromItems.right _ _, rfl, rfl⟩, rfl⟩
  | tear path tail =>
    right
    simp only [around1]
    split
    · next f hf =>
      refine ⟨⟨⟨fun _ _ h => h, id, id, id, ?_, rfl, fun _ h => h, rfl⟩, fun _ _ h => h,
        FromItems.refl _, FromItems.right _ _, rfl, rfl⟩, rfl⟩
      by_cases hp : IsPart path
      · exact TreeStep.put_part hp _
      · -- a file at a final name is confirmed, and has nothing to lose
        rw [torn_solid (hsolid path f hp hf)]
        exact TreeStep.put_file hf rfl rfl
    · exact ⟨⟨.of_eq rfl rfl rfl rfl rfl rfl rfl, fun _ _ h => h, FromItems.refl _,
        FromItems.right _ _, rfl, rfl⟩, rfl⟩
  | tick seconds =>
    exact .inr ⟨⟨.of_eq rfl rfl rfl rfl rfl rfl rfl, fun _ _ h => h, FromItems.refl _,
      FromItems.right _ _, rfl, rfl⟩, rfl⟩

theorem Core.still (h : Core orig plain w) (hw : Still w w') : Core orig plain w' :=
  h.shrink hw.shrink hw.job hw.saved fun _ _ p n₀ hn => .inl (hw.kept p n₀ hn)

/-- A quiet step is an edit by somebody else, or leaves the source's files alone. -/
theorem Quiet.cases_core (hq : Quiet plain w w') (hf : w'.faults = [])
    (hsolid : AllSolid w.target.tree) :
    (∃ path node, Edited w path node w' ∧ w'.touched = true) ∨ Still w w' := by
  cases hq with
  | look h =>
    cases h with
    | around a =>
      rcases around_still a hsolid with ⟨path, node, he⟩ | ⟨hs, -⟩
      · rw [he] at hf ⊢
        exact .inl ⟨path, node, edited hf, rfl⟩
      · exact .inr hs
    | job job h =>
      exact .inr ⟨.of_eq rfl rfl rfl rfl rfl rfl rfl, fun _ _ h => h, h.fromItems,
        FromItems.right _ _, rfl, rfl⟩
    | save =>
      exact .inr ⟨.of_eq rfl rfl rfl rfl rfl rfl rfl, fun _ _ h => h, FromItems.refl _,
        FromItems.left _ _, rfl, rfl⟩
    | fault f h => exact absurd hf (by simp [World.fault])
  | target t h =>
    exact .inr ⟨⟨fun _ _ h => h, id, id, id, h, rfl, fun _ h => h, rfl⟩, fun _ _ h => h,
      FromItems.refl _, FromItems.right _ _, rfl, rfl⟩
  | bare t h =>
    exact .inr ⟨⟨fun _ _ h => h, id, id, h, TreeStep.refl _, rfl, fun _ h => h, rfl⟩,
      fun _ _ h => h, FromItems.refl _, FromItems.right _ _, rfl, rfl⟩
  | astray s f h => exact absurd hf (by simp)
  | prune t h hk hd =>
    exact .inr ⟨⟨h, hd, id, id, TreeStep.refl _, rfl, fun _ h => h, rfl⟩, hk,
      FromItems.refl _, FromItems.right _ _, rfl, rfl⟩
  | bareSource t h =>
    exact .inr ⟨⟨fun _ _ h => h, id, h, id, TreeStep.refl _, rfl, fun _ h => h, rfl⟩,
      fun _ _ h => h, FromItems.refl _, FromItems.right _ _, rfl, rfl⟩

/-- The items stay in their places, and the manifest's come from the job's. -/
theorem Quiet.items (hq : Quiet plain w w') : JobStep w.job w'.job ∧
    (w'.saved.items = w.job.items ∨ w'.saved.items = w.saved.items) := by
  have hsame : w'.job.items = w.job.items → w'.saved.items = w.saved.items →
      JobStep w.job w'.job ∧
        (w'.saved.items = w.job.items ∨ w'.saved.items = w.saved.items) := by
    intro hj hs
    unfold JobStep
    rw [hj]
    exact ⟨forall₂_refl ItemStep.refl _, .inr hs⟩
  cases hq with
  | look h =>
    cases h with
    | around a =>
      cases a with
      | edit path node =>
        exact hsame (congrArg _ (edit_job path node)) (congrArg _ (edit_saved path node))
      | cancel written =>
        refine ⟨JobStep.refl _, ?_⟩
        change (if written = true then _ else w.saved).items = w.job.items ∨
          (if written = true then _ else w.saved).items = w.saved.items
        split
        · exact .inl rfl
        · exact .inr rfl
      | lose side found => cases side <;> exact hsame rfl rfl
      | find side => cases side <;> exact hsame rfl rfl
      | tear path tail =>
        simp only [around1] at hsame ⊢
        split at hsame
        · exact hsame rfl rfl
        · exact hsame rfl rfl
      | tick seconds => exact hsame rfl rfl
    | job job h => exact ⟨h, .inr rfl⟩
    | save => exact ⟨JobStep.refl _, .inl rfl⟩
    | fault f h => exact hsame rfl rfl
  | target t h => exact hsame rfl rfl
  | bare t h => exact hsame rfl rfl
  | astray s f h => exact hsame rfl rfl
  | prune t h hk hd => exact hsame rfl rfl
  | bareSource t h => exact hsame rfl rfl

theorem Quiet.plainItems (hq : Quiet plain w w') (h : Plain orig w) : Plain orig w' := by
  refine ⟨h.1.step hq.items.1, ?_⟩
  rcases hq.items.2 with hs | hs
  · rw [hs]
    exact h.1
  · rw [hs]
    exact h.2

/-- Faults are not taken back. -/
theorem Quiet.faults (hq : Quiet plain w w') : ∃ l, w'.faults = l ++ w.faults ∧
    (plain → w'.touched = false → w.touched = false ∧ ∀ x ∈ l, x = .copyAstray) := by
  have hsame : w'.faults = w.faults → w'.touched = w.touched → ∃ l, w'.faults = l ++ w.faults ∧
      (plain → w'.touched = false → w.touched = false ∧ ∀ x ∈ l, x = .copyAstray) :=
    fun h ht => ⟨[], h, fun _ h' => ⟨ht ▸ h', by simp⟩⟩
  cases hq with
  | look h =>
    cases h with
    | around a =>
      cases a with
      | edit path node =>
        obtain ⟨l, hl⟩ := edit_faults (w := w) path node
        exact ⟨l, hl, fun _ ht => absurd ht (by simp [around1, edit])⟩
      | cancel written => exact hsame rfl rfl
      | lose side found => cases side <;> exact hsame rfl rfl
      | find side => cases side <;> exact hsame rfl rfl
      | tear path tail =>
        simp only [around1] at hsame ⊢
        split at hsame
        · exact hsame rfl rfl
        · exact hsame rfl rfl
      | tick seconds => exact hsame rfl rfl
    | job job h => exact hsame rfl rfl
    | save => exact hsame rfl rfl
    | fault f h => exact ⟨[f], rfl, fun hp => absurd hp h⟩
  | target t h => exact hsame rfl rfl
  | bare t h => exact hsame rfl rfl
  | astray s f h => exact ⟨[f], rfl, fun hp ht => ⟨ht, by simp [h hp]⟩⟩
  | prune t h hk hd => exact hsame rfl rfl
  | bareSource t h => exact hsame rfl rfl

theorem Quiet.clear (hq : Quiet plain w w') (hf : w'.faults = []) : w.faults = [] := by
  obtain ⟨l, hl, -⟩ := hq.faults
  exact (List.append_eq_nil_iff.mp (hl ▸ hf)).2

theorem Quiet.onward (hq : Quiet plain w w') (hf : w'.faults = [])
    (hsolid : AllSolid w.target.tree) : Onward w w' := by
  rcases hq.cases_core hf hsolid with ⟨_, _, he, -⟩ | hs
  · exact he.onward
  · exact hs.shrink.onward

/-- While nobody edits the source, its files are those it had. -/
theorem Quiet.calm (hq : Quiet plain w w') (hf : w'.faults = []) (hsolid : AllSolid w.target.tree)
    (hcalm : w'.calm = true) : w.calm = true ∧
      ∀ p n, fileAt w'.source.tree p = some n → fileAt w.source.tree p = some n := by
  rcases hq.cases_core hf hsolid with ⟨_, _, he, -⟩ | hs
  · rw [he.calm] at hcalm
    exact absurd hcalm (by simp)
  · exact ⟨hs.calm ▸ hcalm, fun _ _ hn => hs.shrink.file hn⟩

/-- **The quiet steps keep the invariant**, with what they keep besides. -/
theorem Inv.quiet {X Y : World D → Prop} (h : Inv orig plain X w) (hq : Quiet plain w w')
    (hX : w'.faults = [] → Core orig plain w → X w → Y w') : Inv orig plain Y w' := by
  obtain ⟨l, hl, hplain⟩ := hq.faults
  refine ⟨fun hp => ?_, fun hp ht x hx => ?_, fun hf => ?_, fun hf => ?_, fun hf => ?_⟩
  · exact hq.plainItems (h.shape hp)
  · obtain ⟨ht', hl'⟩ := hplain hp ht
    rcases List.mem_append.mp (hl ▸ hx) with hx | hx
    · exact hl' x hx
    · exact h.faults hp ht' x hx
  · have hc := h.core (hq.clear hf)
    rcases hq.cases_core hf hc.solid with ⟨_, _, he, ht⟩ | hs
    · exact hc.edit he ht
    · exact hc.still hs
  · rcases hq.cases_core hf (h.core (hq.clear hf)).solid with ⟨_, _, he, -⟩ | hs
    · rw [he.removals]
      exact h.carried (hq.clear hf)
    · rw [hs.removals]
      exact h.carried (hq.clear hf)
  · exact hX hf (h.core (hq.clear hf)) (h.extra (hq.clear hf))

end Core

/-! ### What the quiet steps keep besides -/

section Stable

variable (orig : Origin) (plain : Prop) (r : World D → World D → Prop)

/-- `X` is kept by every step of `r` that raises no fault. -/
def Stable (X : World D → Prop) : Prop :=
  ∀ w w', r w w' → w'.faults = [] → Core orig plain w → X w → X w'

variable {orig plain r} {X Y : World D → Prop}

theorem Stable.and (hX : Stable orig plain r X) (hY : Stable orig plain r Y) :
    Stable orig plain r (fun w => X w ∧ Y w) :=
  fun w w' hr hf hc h => ⟨hX w w' hr hf hc h.1, hY w w' hr hf hc h.2⟩

theorem Stable.const (p : Prop) : Stable orig plain r (fun _ : World D => p) :=
  fun _ _ _ _ _ h => h

theorem Stable.imp (p : Prop) (hX : Stable orig plain r X) :
    Stable orig plain r (fun w => p → X w) :=
  fun w w' hr hf hc h hp => hX w w' hr hf hc (h hp)

theorem Stable.ex {A : Type} {Z : A → World D → Prop} (hZ : ∀ a, Stable orig plain r (Z a)) :
    Stable orig plain r (fun w => ∃ a, Z a w) := by
  rintro w w' hr hf hc ⟨a, ha⟩
  exact ⟨a, hZ a w w' hr hf hc ha⟩

theorem Stable.look (hX : Stable orig plain (Quiet plain) X) :
    Stable orig plain (Look plain) X :=
  fun w w' hr => hX w w' (.look hr)

end Stable

end StoreMoves
