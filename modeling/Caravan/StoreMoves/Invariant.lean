import Caravan.Python.Except
import Caravan.StoreMoves.Mover

/-!
# The invariant of a move

`Inv sha orig plain X` is what every step of a mover keeps, in memory and in the
manifest alike, whatever fails around it:

* a file the job calls proven is at the target under its final name, whole and
  confirmed, with the content of any source file that still has the stamp the
  proof was made for (`Secured`);
* nothing at a final name at the target is unconfirmed, so a lost tail of
  unconfirmed bytes is never a proven copy's (`Core.solid`);
* the links of a scanned folder are those the scan read (`ItemOk.links`);
* a source nobody else writes keeps each of its files, or the target holds it
  (`Untouched`);
* every folder removed so far stood at the target (`Carried`).

All of it is stated for runs without a `Fault`. `plain` says that the job has no
folder items; such a job meets no fault but a copy begun under a lost store's
mount point (`Inv.faults`). `X` is what is known besides at one place of the
program.

Most of what a mover does cannot touch any of this. `Quiet` lists those steps:
what happens around an operation, the fields of the record that only say how far
things are (`JobStep`), a save of the manifest, and at the target whatever bears
a temporary name, new directories and mtimes (`TreeStep`). `Look` is the part of
it that does not write. One theorem, `Inv.quiet`, covers them all.
-/

namespace StoreMoves

open Crash World

variable {D : Type}

/-! ### Paths -/

theorem within_toList (folder rel : String) :
    (within folder rel).toList = (folder ++ "/").toList ++ rel.toList := by
  simp [within]

theorem inside?_eq_some {folder path rel : String} :
    inside? folder path = some rel ↔ path = within folder rel := by
  dsimp only [inside?]
  constructor
  · intro h
    split at h
    · next hp =>
      obtain ⟨t, ht⟩ := hp
      obtain rfl := Option.some.inj h
      rw [← String.toList_inj, within_toList, ← ht]
      simp
    · exact absurd h (by simp)
  · rintro rfl
    rw [if_pos (by rw [within_toList]; exact List.prefix_append _ _), within_toList]
    simp

theorem inside?_within (folder rel : String) : inside? folder (within folder rel) = some rel :=
  inside?_eq_some.mpr rfl

theorem isPart_append (rel : String) : IsPart (rel ++ PART_SUFFIX) := by
  unfold IsPart
  rw [String.toList_append]
  exact List.suffix_append _ _

/-! ### Files of a tree -/

theorem fileAt_eq_some {t : Tree} {p : String} {n : FileNode} :
    fileAt t p = some n ↔ Assoc.get t p = some (.file n) := by
  unfold fileAt
  split
  · next f h => rw [h]; simp
  · next h =>
    refine ⟨fun hn => absurd hn (by simp), fun hn => absurd hn (h n)⟩

theorem fileAt_congr {t t' : Tree} {p : String} (h : Assoc.get t p = Assoc.get t' p) :
    fileAt t p = fileAt t' p := by
  unfold fileAt
  rw [h]

/-- Every file at a final name is confirmed. -/
def AllSolid (t : Tree) : Prop :=
  ∀ p n, ¬ IsPart p → fileAt t p = some n → n.Solid

/-- The tree has at `p` a confirmed file with this content. -/
def HasFile (t : Tree) (p : String) (c : Bytes) : Prop :=
  ∃ n, fileAt t p = some n ∧ n.Solid ∧ n.content = c

/-- What a step leaves at a path: at a temporary name anything; elsewhere the same
node, up to the mtime of a file, or a new node that is no file. -/
def NodeStep (p : String) (a b : Option Node) : Prop :=
  b = a ∨ IsPart p ∨ (a = none ∧ ∀ f, b ≠ some (.file f)) ∨
    ∃ f f', a = some (.file f) ∧ b = some (.file f') ∧ f'.content = f.content ∧
      f'.synced = f.synced

def TreeStep (t t' : Tree) : Prop := ∀ p, NodeStep p (Assoc.get t p) (Assoc.get t' p)

/-- Nothing but directories. -/
def BareDirs (t : Tree) : Prop := ∀ p n, Assoc.get t p = some n → n = .dir

theorem TreeStep.put_part {t : Tree} {p : String} (hp : IsPart p) (n : Node) :
    TreeStep t (Assoc.put t p n) := by
  intro q
  by_cases hq : q = p
  · exact .inr (.inl (hq ▸ hp))
  · exact .inl (Assoc.get_put_of_ne t n hq)

theorem TreeStep.del_part {t : Tree} {p : String} (hp : IsPart p) :
    TreeStep t (Assoc.del t p) := by
  intro q
  by_cases hq : q = p
  · exact .inr (.inl (hq ▸ hp))
  · exact .inl (Assoc.get_del_of_ne t hq)

theorem TreeStep.refl (t : Tree) : TreeStep t t := fun _ => .inl rfl

theorem TreeStep.put_new {t : Tree} {p : String} (h : Assoc.get t p = none) {n : Node}
    (hn : ∀ f, n ≠ .file f) : TreeStep t (Assoc.put t p n) := by
  intro q
  by_cases hq : q = p
  · subst hq
    exact .inr (.inr (.inl ⟨h, by simpa using hn⟩))
  · exact .inl (Assoc.get_put_of_ne t n hq)

/-- A file of another mtime is the same file. -/
theorem TreeStep.put_file {t : Tree} {p : String} {f f' : FileNode} (h : fileAt t p = some f)
    (hc : f'.content = f.content) (hs : f'.synced = f.synced) :
    TreeStep t (Assoc.put t p (.file f')) := by
  intro q
  by_cases hq : q = p
  · subst hq
    exact .inr (.inr (.inr ⟨f, f', fileAt_eq_some.mp h, by simp, hc, hs⟩))
  · exact .inl (Assoc.get_put_of_ne t _ hq)

theorem TreeStep.file {t t' : Tree} (h : TreeStep t t') {p : String} (hp : ¬ IsPart p)
    {n : FileNode} (hn : fileAt t p = some n) :
    ∃ n', fileAt t' p = some n' ∧ n'.content = n.content ∧ n'.synced = n.synced := by
  rw [fileAt_eq_some] at hn
  rcases h p with he | he | ⟨he, -⟩ | ⟨f, f', ha, hb, hc, hs⟩
  · exact ⟨n, fileAt_eq_some.mpr (he.trans hn), rfl, rfl⟩
  · exact absurd he hp
  · rw [hn] at he; exact absurd he (by simp)
  · obtain rfl : n = f := by simpa using hn.symm.trans ha
    exact ⟨f', fileAt_eq_some.mpr hb, hc, hs⟩

theorem TreeStep.file_back {t t' : Tree} (h : TreeStep t t') {p : String} (hp : ¬ IsPart p)
    {n' : FileNode} (hn : fileAt t' p = some n') :
    ∃ n, fileAt t p = some n ∧ n'.content = n.content ∧ n'.synced = n.synced := by
  rw [fileAt_eq_some] at hn
  rcases h p with he | he | ⟨-, he⟩ | ⟨f, f', ha, hb, hc, hs⟩
  · exact ⟨n', fileAt_eq_some.mpr (he.symm.trans hn), rfl, rfl⟩
  · exact absurd he hp
  · exact absurd hn (he n')
  · obtain rfl : n' = f' := by simpa using hn.symm.trans hb
    exact ⟨f, fileAt_eq_some.mpr ha, hc, hs⟩

theorem TreeStep.link {t t' : Tree} (h : TreeStep t t') {p x : String} (hp : ¬ IsPart p)
    (hl : Assoc.get t p = some (.link x)) : Assoc.get t' p = some (.link x) := by
  rcases h p with he | he | ⟨he, -⟩ | ⟨f, f', ha, -⟩
  · exact he.trans hl
  · exact absurd he hp
  · rw [hl] at he; exact absurd he (by simp)
  · rw [hl] at ha; exact absurd ha (by simp)

theorem AllSolid.step {t t' : Tree} (ht : AllSolid t) (h : TreeStep t t') : AllSolid t' := by
  intro p n hp hn
  obtain ⟨n₀, h₀, hc, hs⟩ := h.file_back hp hn
  have := ht p n₀ hp h₀
  unfold FileNode.Solid at this ⊢
  rw [hs, hc, this]

theorem HasFile.step {t t' : Tree} {p : String} {c : Bytes} (hf : HasFile t p c)
    (hp : ¬ IsPart p) (h : TreeStep t t') : HasFile t' p c := by
  obtain ⟨n, hn, hs, hc⟩ := hf
  obtain ⟨n', hn', hc', hs'⟩ := h.file hp hn
  refine ⟨n', hn', ?_, hc'.trans hc⟩
  unfold FileNode.Solid at hs ⊢
  rw [hs', hc', hs]

theorem torn_solid {f : FileNode} (h : f.Solid) (tail : Bytes) : torn f tail = f := by
  cases f with
  | mk content mtime synced =>
    obtain rfl : synced = content.length := h
    simp [torn]

/-! ### Steps of the record -/

/-- The fields of a file that say which file it is and whether it is proven stay. -/
def FileStep (f f' : MoveFile D) : Prop :=
  f'.rel = f.rel ∧ f'.size = f.size ∧ f'.stamp = f.stamp ∧ f'.state = f.state

theorem FileStep.refl (f : MoveFile D) : FileStep f f := ⟨rfl, rfl, rfl, rfl⟩

/-- The fields of an item that say what it moves stay; it is not closed as done. -/
structure ItemStep (a b : MoveItem D) : Prop where
  folder : b.folder = a.folder
  links : b.links = a.links
  dirs : b.dirs = a.dirs
  scanned : b.scanned = a.scanned
  state : b.state = .done → a.state = .done
  files : List.Forall₂ FileStep a.files b.files

theorem forall₂_refl {A : Type} {r : A → A → Prop} (hr : ∀ x, r x x) (l : List A) :
    List.Forall₂ r l l := by
  induction l with
  | nil => exact .nil
  | cons x l ih => exact .cons (hr x) ih

theorem forall₂_modify {A : Type} {r : A → A → Prop} (hr : ∀ x, r x x) {g : A → A}
    (hg : ∀ x, r x (g x)) (l : List A) (i : ℕ) : List.Forall₂ r l (l.modify i g) := by
  induction l generalizing i with
  | nil => simp
  | cons x l ih =>
    cases i with
    | zero => exact .cons (hg x) (forall₂_refl hr l)
    | succ i => exact .cons (hr x) (ih i)

theorem ItemStep.refl (a : MoveItem D) : ItemStep a a :=
  ⟨rfl, rfl, rfl, rfl, id, forall₂_refl FileStep.refl _⟩

theorem forall₂_trans {A : Type} {r : A → A → Prop} (hr : ∀ x y z, r x y → r y z → r x z)
    {l l' l'' : List A} (h : List.Forall₂ r l l') (h' : List.Forall₂ r l' l'') :
    List.Forall₂ r l l'' := by
  induction h generalizing l'' with
  | nil => exact h'
  | cons hx _ ih =>
    cases h' with
    | cons hy h' => exact .cons (hr _ _ _ hx hy) (ih h')

theorem ItemStep.trans {a b c : MoveItem D} (h : ItemStep a b) (h' : ItemStep b c) :
    ItemStep a c where
  folder := h'.folder.trans h.folder
  links := h'.links.trans h.links
  dirs := h'.dirs.trans h.dirs
  scanned := h'.scanned.trans h.scanned
  state := fun hs => h.state (h'.state hs)
  files := forall₂_trans (fun _ _ _ hx hy =>
    ⟨hy.1.trans hx.1, hy.2.1.trans hx.2.1, hy.2.2.1.trans hx.2.2.1, hy.2.2.2.trans hx.2.2.2⟩)
    h.files h'.files

theorem ItemStep.setFile (a : MoveItem D) (j : ℕ) {g : MoveFile D → MoveFile D}
    (hg : ∀ f, FileStep f (g f)) : ItemStep a (a.setFile j g) :=
  ⟨rfl, rfl, rfl, rfl, id, forall₂_modify FileStep.refl hg _ _⟩

/-- An item goes on: its files may become proven, and what it moves stays. -/
structure ItemOn (a b : MoveItem D) : Prop where
  folder : b.folder = a.folder
  links : b.links = a.links
  dirs : b.dirs = a.dirs
  scanned : b.scanned = a.scanned
  length : b.files.length = a.files.length
  file : ∀ j, (b.file j).rel = (a.file j).rel ∧
    (j < a.files.length → (a.file j).state = .proven → (b.file j).state = .proven)

def JobStep (a b : MoveJob D) : Prop := List.Forall₂ ItemStep a.items b.items

theorem JobStep.refl (a : MoveJob D) : JobStep a a := forall₂_refl ItemStep.refl _

theorem JobStep.setItem (a : MoveJob D) (i : ℕ) {g : MoveItem D → MoveItem D}
    (hg : ∀ x, ItemStep x (g x)) : JobStep a (a.setItem i g) :=
  forall₂_modify ItemStep.refl hg _ _

theorem forall₂_getD {A : Type} {r : A → A → Prop} {l l' : List A} {d : A} (hd : r d d)
    (h : List.Forall₂ r l l') (i : ℕ) : r (l.getD i d) (l'.getD i d) := by
  induction h generalizing i with
  | nil => exact hd
  | cons hx _ ih =>
    cases i with
    | zero => exact hx
    | succ i => exact ih i

theorem JobStep.item {a b : MoveJob D} (h : JobStep a b) (i : ℕ) :
    ItemStep (a.item i) (b.item i) :=
  forall₂_getD (ItemStep.refl _) h i

theorem ItemStep.file {a b : MoveItem D} (h : ItemStep a b) (j : ℕ) :
    FileStep (a.file j) (b.file j) :=
  forall₂_getD (FileStep.refl _) h.files j

theorem ItemStep.on {a b : MoveItem D} (h : ItemStep a b) : ItemOn a b where
  folder := h.folder
  links := h.links
  dirs := h.dirs
  scanned := h.scanned
  length := h.files.length_eq.symm
  file := fun j => ⟨(h.file j).1, fun _ hs => (h.file j).2.2.2.trans hs⟩

theorem ItemOn.refl (a : MoveItem D) : ItemOn a a :=
  ⟨rfl, rfl, rfl, rfl, rfl, fun _ => ⟨rfl, fun _ h => h⟩⟩

/-- A change of one file of item `i` that keeps its name and takes no proof back. -/
theorem itemOn_setFile (job : MoveJob D) (i j : ℕ) {g : MoveFile D → MoveFile D}
    (hrel : ∀ f, (g f).rel = f.rel) (hst : ∀ f, f.state = .proven → (g f).state = .proven) :
    ItemOn (job.item i) ((job.setItem i fun item => item.setFile j g).item i) := by
  rw [MoveJob.item_setItem]
  split
  · refine ⟨rfl, rfl, rfl, rfl, MoveItem.length_setFile _ _ _, fun k => ?_⟩
    by_cases hk : k = j
    · subst hk
      rw [MoveItem.file_setFile]
      split
      · exact ⟨hrel _, fun _ => hst _⟩
      · next hlt => exact ⟨by rw [MoveItem.file_of_le (Nat.not_lt.mp hlt)], fun h => absurd h hlt⟩
    · have : ((job.item i).setFile j g).file k = (job.item i).file k := by
        simp only [MoveItem.file, MoveItem.setFile, List.getD_eq_getElem?_getD]
        rw [List.getElem?_modify_ne _ _ (Ne.symm hk)]
      rw [this]
      exact ⟨rfl, fun _ h => h⟩
  · next h =>
    rw [MoveJob.item_of_le (Nat.not_lt.mp h)]
    exact ItemOn.refl _

/-! ### What the job says of the trees -/

/-- The target holds, under its final name, what the source held at `p`. -/
def Held (w : World D) (p : String) (n₀ : FileNode) : Prop :=
  ¬ IsPart p ∧ HasFile w.target.tree p n₀.content

/-- A source file that still has the stamp it was proven with is at the target. -/
def Secured (w : World D) (f : MoveFile D) : Prop :=
  ∃ st, f.stamp = some st ∧ (∃ c, ((f.rel, st), c) ∈ w.seen) ∧
    ∀ n, fileAt w.source.tree f.rel = some n → n.stamp = st →
      HasFile w.target.tree f.rel n.content

structure ItemOk (w : World D) (item : MoveItem D) : Prop where
  /-- No file of an item bears a temporary name. -/
  final : ∀ f ∈ item.files, ¬ IsPart f.rel
  linkFinal : ∀ p ∈ item.links, ¬ IsPart p.1
  proven : ∀ f ∈ item.files, f.state = .proven → Secured w f
  /-- Every link a scanned folder has at the source is one the scan read. -/
  links : item.folder ≠ "" → item.scanned = true → item.folder ∈ w.walked ∧
    ∀ p t, Assoc.get w.source.tree p = some (.link t) → (inside? item.folder p).isSome →
      (p, t) ∈ item.links
  /-- The files of a folder lie in it. -/
  inFolder : item.folder ≠ "" → ∀ f ∈ item.files, ∃ q, f.rel = within item.folder q

/-- Every file and link of a removed folder stood at the target. -/
def Carried (r : Removal) : Prop :=
  ∀ p q, p = within r.folder q →
    (∀ n, Assoc.get r.source p = some (.file n) →
      ∃ n', Assoc.get r.target p = some (.file n') ∧ n'.content = n.content) ∧
    (∀ t, Assoc.get r.source p = some (.link t) → Assoc.get r.target p = some (.link t))

/-- What the invariant remembers of the start: the source's tree, and the names of
the files of each item. -/
structure Origin where
  source : Tree
  rels : List (List String)

section Inv

variable (orig : Origin) (plain : Prop)

/-- A source nobody else writes: what it has it had from the start, and what it
had is there or held by the target. -/
structure Untouched (w : World D) : Prop where
  same : ∀ p n, fileAt w.source.tree p = some n → fileAt orig.source p = some n
  seen : ∀ p st c, ((p, st), c) ∈ w.seen →
    ∃ n₀, fileAt orig.source p = some n₀ ∧ n₀.stamp = st ∧ n₀.content = c
  kept : ∀ p n₀, fileAt orig.source p = some n₀ → fileAt w.source.tree p = some n₀ ∨ Held w p n₀

/-- An item closed as done has its files at the target. -/
def DoneHeld (w : World D) (item : MoveItem D) : Prop :=
  item.state = .done → ∀ f ∈ item.files, ∀ n₀, fileAt orig.source f.rel = some n₀ → Held w f.rel n₀

structure Core (w : World D) : Prop where
  /-- Nothing stands under a mount point but directories. -/
  bareSource : BareDirs w.source.bare
  bareTarget : BareDirs w.target.bare
  distinct : Assoc.Distinct w.source.tree
  solid : AllSolid w.target.tree
  /-- The stamps of the source's files are on record, each with one content. -/
  stamped : ∀ p n, fileAt w.source.tree p = some n → ((p, n.stamp), n.content) ∈ w.seen
  single : ∀ k c c', (k, c) ∈ w.seen → (k, c') ∈ w.seen → c = c'
  job : ∀ item ∈ w.job.items, ItemOk w item
  saved : ∀ item ∈ w.saved.items, ItemOk w item
  untouched : plain → w.touched = false → Untouched orig w
  jobDone : plain → w.touched = false → ∀ item ∈ w.job.items, DoneHeld orig w item
  savedDone : plain → w.touched = false → ∀ item ∈ w.saved.items, DoneHeld orig w item

/-- No item is a folder, and each has the files it was planned with. -/
structure PlainItems (items : List (MoveItem D)) : Prop where
  folder : ∀ item ∈ items, item.folder = ""
  rels : items.map MoveItem.rels = orig.rels

def Plain (w : World D) : Prop :=
  PlainItems orig w.job.items ∧ PlainItems orig w.saved.items

structure Inv (X : World D → Prop) (w : World D) : Prop where
  shape : plain → Plain orig w
  faults : plain → w.touched = false → ∀ x ∈ w.faults, x = .copyAstray
  core : w.faults = [] → Core orig plain w
  carried : w.faults = [] → ∀ r ∈ w.removals, Carried r
  extra : w.faults = [] → X w

end Inv

/-! ### Steps of the trees -/

/-- The source has no file or link it did not have, but for a file with a stamp
its path never had and for a link outside the folders walked; the target keeps
what it has at final names. -/
structure Onward (w w' : World D) : Prop where
  seen : ∀ x ∈ w.seen, x ∈ w'.seen
  walked : ∀ x ∈ w.walked, x ∈ w'.walked
  source : ∀ p n, fileAt w'.source.tree p = some n →
    fileAt w.source.tree p = some n ∨ ∀ c, ((p, n.stamp), c) ∉ w.seen
  links : ∀ p t, Assoc.get w'.source.tree p = some (.link t) →
    Assoc.get w.source.tree p = some (.link t) ∨ ∀ d ∈ w.walked, inside? d p = none
  target : ∀ p c, ¬ IsPart p → HasFile w.target.tree p c → HasFile w'.target.tree p c

section Onward

variable {w w' : World D} (h : Onward w w')
include h

theorem Secured.onward {f : MoveFile D} (hf : Secured w f) (hp : ¬ IsPart f.rel) :
    Secured w' f := by
  obtain ⟨st, hst, ⟨c, hc⟩, hn⟩ := hf
  refine ⟨st, hst, ⟨c, h.seen _ hc⟩, fun n hs hns => ?_⟩
  rcases h.source _ n hs with hs | hs
  · exact h.target _ _ hp (hn n hs hns)
  · exact absurd (hns ▸ hc) (hs c)

theorem Held.onward {p : String} {n₀ : FileNode} (hh : Held w p n₀) : Held w' p n₀ :=
  ⟨hh.1, h.target p _ hh.1 hh.2⟩

theorem ItemOk.onward {item : MoveItem D} (hi : ItemOk w item) : ItemOk w' item where
  final := hi.final
  linkFinal := hi.linkFinal
  proven := fun f hf hs => (hi.proven f hf hs).onward h (hi.final f hf)
  links := fun hne hsc => by
    obtain ⟨hw, hl⟩ := hi.links hne hsc
    refine ⟨h.walked _ hw, fun p t hp hin => ?_⟩
    rcases h.links p t hp with hp | hp
    · exact hl p t hp hin
    · rw [hp _ hw] at hin
      exact absurd hin (by simp)
  inFolder := hi.inFolder

end Onward

/-- The same for an item whose volatile fields changed. -/
theorem ItemOk.step {w : World D} {a b : MoveItem D} (ha : ItemOk w a) (h : ItemStep a b) :
    ItemOk w b where
  final := fun f hf => by
    obtain ⟨f₀, hm, hs⟩ := List.Forall₂.of_mem_right h.files hf
    rw [hs.1]
    exact ha.final f₀ hm
  linkFinal := fun p hp => ha.linkFinal p (h.links ▸ hp)
  proven := fun f hf hst => by
    obtain ⟨f₀, hm, hrel, -, hstamp, hstate⟩ := List.Forall₂.of_mem_right h.files hf
    obtain ⟨st, hs, hseen, hn⟩ := ha.proven f₀ hm (hstate ▸ hst)
    exact ⟨st, hstamp.trans hs, hrel ▸ hseen, hrel ▸ hn⟩
  links := fun hne hsc => by
    rw [h.folder] at hne ⊢
    rw [h.links]
    exact ha.links hne (h.scanned ▸ hsc)
  inFolder := fun hne f hf => by
    obtain ⟨f₀, hm, hs⟩ := List.Forall₂.of_mem_right h.files hf
    rw [h.folder] at hne ⊢
    rw [hs.1]
    exact ha.inFolder hne f₀ hm

theorem ItemStep.rels {a b : MoveItem D} (h : ItemStep a b) : b.rels = a.rels := by
  have key : ∀ {l l' : List (MoveFile D)}, List.Forall₂ FileStep l l' →
      l'.map MoveFile.rel = l.map MoveFile.rel := by
    intro l l' h
    induction h with
    | nil => rfl
    | cons hx _ ih => rw [List.map_cons, List.map_cons, hx.1, ih]
  exact key h.files

theorem PlainItems.step {orig : Origin} {its its' : List (MoveItem D)} (h : PlainItems orig its)
    (hs : List.Forall₂ ItemStep its its') : PlainItems orig its' := by
  refine ⟨fun b hb => ?_, ?_⟩
  · obtain ⟨a, ha, hab⟩ := List.Forall₂.of_mem_right hs hb
    exact hab.folder.trans (h.folder a ha)
  · rw [← h.rels]
    clear h
    induction hs with
    | nil => rfl
    | cons hx _ ih => rw [List.map_cons, List.map_cons, hx.rels, ih]

theorem DoneHeld.step {orig : Origin} {w : World D} {a b : MoveItem D} (ha : DoneHeld orig w a)
    (h : ItemStep a b) : DoneHeld orig w b := by
  intro hst f hf n₀ hn
  obtain ⟨f₀, hm, hs⟩ := List.Forall₂.of_mem_right h.files hf
  rw [hs.1] at hn ⊢
  exact ha (h.state hst) f₀ hm n₀ hn

end StoreMoves
