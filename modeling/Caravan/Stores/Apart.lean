import Caravan.Framework.System
import Caravan.Stores.Registry
import Mathlib.Data.List.Nodup
import Mathlib.Data.List.Pairwise

/-!
# The stores of one host share no files

`StoreRegistry` compares the paths of the stores as texts when one is added or pointed
elsewhere. So in every run the paths on the list are apart as texts, and no two libraries
have one id (`Listed.step`); a change of the models directory is not compared with the
libraries, and the runs here change it to a directory that is apart from them.

The texts say nothing of links: a link gives a directory two names, and both may be on the
list (`aliased_store_loses_file`). What the registry gives (`stores_apart`) is that two
stores whose paths go through no link share no file, that a move between them leaves a
proven copy of each of its files, and that two libraries are never one directory while a
move between them is allowed to remove: each root carries its own mark then.
-/

namespace Stores

open Python

/-! ### The list -/

/-- The paths on the list, the models directory first. -/
def Registry.paths (s : Registry) : List Root := s.modelsDir :: s.saved.map Row.path

/-- Two paths that the comparison lets stand side by side. -/
def TextApart (a b : Root) : Prop := sameOrNested a b = false

theorem TextApart.symm {a b : Root} (h : TextApart a b) : TextApart b a :=
  (sameOrNested_comm b a).trans h

/-- What the registry keeps of its list. -/
structure Listed (s : Registry) : Prop where
  apart : s.paths.Pairwise TextApart
  ids : (s.saved.map Row.id).Nodup

theorem refuseIf_ok {refused : Prop} [Decidable refused] {e : StoreRefused}
    (h : refuseIf refused e = .ok ()) : ¬ refused := by
  unfold refuseIf at h
  split at h
  · cases h
  · assumption

theorem checkOthers_ok {root : Root} {others : List Root}
    (h : checkOthers root others = .ok ()) : ∀ other ∈ others, TextApart root other := by
  induction others with
  | nil => exact fun _ hm => absurd hm List.not_mem_nil
  | cons other others ih =>
    obtain ⟨_, hsame, h⟩ := Except.bind_eq_ok h
    obtain ⟨_, hnested, h⟩ := Except.bind_eq_ok h
    intro o ho
    rcases List.mem_cons.mp ho with rfl | ho
    · have hs := refuseIf_ok hsame
      have hn := refuseIf_ok hnested
      push Not at hn
      unfold TextApart sameOrNested
      rw [decide_eq_false hs, Bool.false_or, Bool.or_eq_false_iff]
      exact ⟨eq_false_of_ne_true hn.1, eq_false_of_ne_true hn.2⟩
    · exact ih h o ho

theorem addChecks_ok {s : Registry} {b : AddBody} {root : Root} {mark : Mark} {disk : Disk}
    (h : addChecks s b = .ok (root, mark, disk)) : ∀ other ∈ s.paths, TextApart root other := by
  obtain ⟨root', -, h⟩ := Except.bind_eq_ok h
  obtain ⟨_, hothers, h⟩ := Except.bind_eq_ok h
  obtain ⟨⟨mark', disk'⟩, -, h⟩ := Except.bind_eq_ok h
  cases h
  exact checkOthers_ok hothers

theorem add_listed {s : Registry} (h : Listed s) (b : AddBody) : Listed (add s b).2 := by
  unfold add
  split
  · exact h
  · next root mark disk hchecks =>
    have hothers := addChecks_ok hchecks
    split
    · exact ⟨h.apart, h.ids⟩
    · next hnew =>
      set row : Row := ⟨mark.id, mark.name, root⟩
      constructor
      · show (s.modelsDir :: (s.saved ++ [row]).map Row.path).Pairwise _
        rw [List.map_append, ← List.cons_append]
        refine List.pairwise_append.mpr ⟨h.apart, List.pairwise_singleton _ _, ?_⟩
        intro other hother r hr
        obtain rfl := List.mem_singleton.mp hr
        exact (hothers other hother).symm
      · show ((s.saved ++ [row]).map Row.id).Nodup
        rw [List.map_append]
        refine List.nodup_append.mpr ⟨h.ids, List.pairwise_singleton _ _, ?_⟩
        intro i hi j hj heq
        obtain rfl := List.mem_singleton.mp hj
        rw [heq] at hi
        exact hnew hi

/-- A row of an id is given another path. -/
def moveRow (sid : Text) (root : Root) (r : Row) : Row :=
  if r.id = sid then { r with path := root } else r

@[simp] theorem moveRow_id (sid : Text) (root : Root) (r : Row) : (moveRow sid root r).id = r.id := by
  unfold moveRow
  split <;> rfl

theorem moveRow_apart {sid : Text} {root other : Root} {r : Row} (hroot : TextApart other root)
    (hr : TextApart other r.path) : TextApart other (moveRow sid root r).path := by
  unfold moveRow
  split
  · exact hroot
  · exact hr

/-- A new path that is apart from the other rows' stands among them. -/
theorem pairwise_moveRow {rows : List Row} {sid : Text} {root : Root}
    (hp : (rows.map Row.path).Pairwise TextApart) (hids : (rows.map Row.id).Nodup)
    (hroot : ∀ r ∈ rows, r.id ≠ sid → TextApart root r.path) :
    ((rows.map (moveRow sid root)).map Row.path).Pairwise TextApart := by
  induction rows with
  | nil => exact List.Pairwise.nil
  | cons r rows ih =>
    obtain ⟨hhead, htail⟩ := List.pairwise_cons.mp hp
    obtain ⟨hid, hids⟩ := List.nodup_cons.mp hids
    refine List.pairwise_cons.mpr ⟨fun q hq => ?_, ih htail hids fun x hx =>
      hroot x (List.mem_cons_of_mem r hx)⟩
    obtain ⟨x', hx', rfl⟩ := List.mem_map.mp hq
    obtain ⟨x, hx, rfl⟩ := List.mem_map.mp hx'
    have hne : x.id ≠ r.id := fun he => hid (he ▸ List.mem_map.mpr ⟨x, hx, rfl⟩)
    have hrx : TextApart r.path x.path := hhead _ (List.mem_map.mpr ⟨x, hx, rfl⟩)
    by_cases hr : r.id = sid
    · -- the row that moves is this one, and none of the others
      have hx' : x.id ≠ sid := fun he => hne (he.trans hr.symm)
      unfold moveRow
      rw [if_pos hr, if_neg hx']
      exact hroot x (List.mem_cons_of_mem r hx) hx'
    · have hhere : moveRow sid root r = r := if_neg hr
      rw [hhere]
      exact moveRow_apart (hroot r List.mem_cons_self hr).symm hrx

theorem repath_listed {s s' : Registry} (h : Listed s) {b : RepathBody}
    (hok : repath s b = .ok s') : Listed s' := by
  obtain ⟨_, -, hok⟩ := Except.bind_eq_ok hok
  obtain ⟨row, -, hok⟩ := Except.bind_eq_ok hok
  obtain ⟨root, -, hok⟩ := Except.bind_eq_ok hok
  split at hok
  · cases hok
    exact h
  · obtain ⟨_, hothers, hok⟩ := Except.bind_eq_ok hok
    obtain ⟨_, -, hok⟩ := Except.bind_eq_ok hok
    obtain ⟨_, -, hok⟩ := Except.bind_eq_ok hok
    cases hok
    have hothers := checkOthers_ok hothers
    obtain ⟨hdir, hrows⟩ := List.pairwise_cons.mp h.apart
    have hroot (r : Row) (hr : r ∈ s.saved) (hid : r.id ≠ b.id.strip) : TextApart root r.path :=
      hothers _ (List.mem_cons_of_mem _
        (List.mem_map.mpr ⟨r, List.mem_filter.mpr ⟨hr, decide_eq_true hid⟩, rfl⟩))
    constructor
    · refine List.pairwise_cons.mpr ⟨fun q hq => ?_, pairwise_moveRow hrows h.ids hroot⟩
      obtain ⟨x', hx', rfl⟩ := List.mem_map.mp hq
      obtain ⟨x, hx, rfl⟩ := List.mem_map.mp hx'
      exact moveRow_apart (hothers _ List.mem_cons_self).symm
        (hdir _ (List.mem_map.mpr ⟨x, hx, rfl⟩))
    · have hids : (s.saved.map (moveRow b.id.strip root)).map Row.id = s.saved.map Row.id := by
        rw [List.map_map]
        exact List.map_congr_left fun r _ => moveRow_id _ _ r
      exact hids ▸ h.ids

theorem remove_listed {s s' : Registry} (h : Listed s) {id : Text}
    (hok : removeStore s id = .ok s') : Listed s' := by
  obtain ⟨_, -, hok⟩ := Except.bind_eq_ok hok
  obtain ⟨_, -, hok⟩ := Except.bind_eq_ok hok
  cases hok
  have hsub : (s.saved.filter (·.id ≠ id.strip)).Sublist s.saved := List.filter_sublist
  exact ⟨h.apart.sublist ((hsub.map Row.path).cons_cons s.modelsDir),
    (hsub.map Row.id).nodup h.ids⟩

/-! ### Runs -/

/-- What may happen to the registry: its operations, a change of the models directory in the
configuration, and anything on the disk. -/
inductive Op
  | add (b : AddBody)
  | repath (b : RepathBody)
  | remove (id : Text)
  | setModelsDir (root : Root)
  | onDisk (d : Disk)

/-- What an operation that was refused leaves. -/
def orSame (s : Registry) : Except StoreRefused Registry → Registry
  | .ok s' => s'
  | .error _ => s

def Op.run (s : Registry) : Op → Registry
  | .add b => (Stores.add s b).2
  | .repath b => orSame s (Stores.repath s b)
  | .remove id => orSame s (removeStore s id)
  | .setModelsDir root => { s with modelsDir := root }
  | .onDisk d => { s with disk := d }

/-- The models directory is changed to one that is apart from the libraries. -/
def Op.Clear (s : Registry) : Op → Prop
  | .setModelsDir root => ∀ r ∈ s.saved, TextApart root r.path
  | .add _ | .repath _ | .remove _ | .onDisk _ => True

/-- The registry, from any list whose paths are apart. -/
def registry : System Registry Op where
  init := Listed
  step s op s' := s' = op.run s

theorem orSame_keeps {P : Registry → Prop} {s : Registry} {x : Except StoreRefused Registry}
    (hs : P s) (hx : ∀ s', x = .ok s' → P s') : P (orSame s x) := by
  cases h : x with
  | ok s' => exact hx s' h
  | error e => exact hs

/-- **One step keeps the list.** -/
theorem Listed.step {s : Registry} (h : Listed s) {op : Op} (hop : op.Clear s) :
    Listed (op.run s) := by
  cases op with
  | add b => exact add_listed h b
  | repath b => exact orSame_keeps h fun s' => repath_listed h
  | remove id => exact orSame_keeps h fun s' => remove_listed h
  | setModelsDir root =>
    obtain ⟨-, hrows⟩ := List.pairwise_cons.mp h.apart
    refine ⟨List.pairwise_cons.mpr ⟨fun q hq => ?_, hrows⟩, h.ids⟩
    obtain ⟨r, hr, rfl⟩ := List.mem_map.mp hq
    exact hop r hr
  | onDisk d => exact ⟨h.apart, h.ids⟩

theorem Listed.reach {s : Registry} (h : System.Reach registry (fun s op => op.Clear s) s) :
    Listed s :=
  h.invariant (fun _ h => h) fun s op s' hs hop hstep => by
    rw [hstep]
    exact hs.step hop

/-! ### Plain paths on the disk -/

section Plain

variable {d : Disk} {p : Path}

theorem resolve_of_plain (h : Links.Plain d.link p) : d.resolve p = some p :=
  Links.resolve_plain h MAXSYMLINKS

theorem read_of_plain (h : Links.Plain d.link p) : d.read p = d.file p := by
  unfold Disk.read
  rw [resolve_of_plain h]
  rfl

theorem entry_of_plain (h : Links.Plain d.link p) : d.entry p = some p := by
  unfold Disk.entry
  split
  · next hnil => rw [List.getLast?_eq_none_iff.mp hnil]
  · next name hlast =>
    have hsplit : p.dropLast ++ [name] = p := List.dropLast_append_getLast? name hlast
    rw [resolve_of_plain (Links.Plain.begins h (List.dropLast_prefix p)), Option.map_some, hsplit]

/-- A removal makes no link. -/
theorem plain_remove (h : Links.Plain d.link p) (gone : Path → Bool) :
    Links.Plain (d.remove gone).link p := by
  intro q hq
  show (if gone q then none else d.link q) = none
  split
  · rfl
  · exact h q hq

/-- What does not go is read as before. -/
theorem read_remove (h : Links.Plain d.link p) {gone : Path → Bool} (hp : gone p = false) :
    (d.remove gone).read p = d.read p := by
  rw [read_of_plain (plain_remove h gone), read_of_plain h]
  show (if gone p then none else d.file p) = d.file p
  rw [hp]
  rfl

end Plain

/-! ### A move between two stores -/

section Moves

variable {D : Type} [DecidableEq D] {sha : Bytes → D} {src dst : ModelStore}

/-- What bringing files does to a disk: files are added, none changes, and the links and the
marks stay. -/
structure Grown (d d' : Disk) : Prop where
  link : d'.link = d.link
  mark : d'.mark = d.mark
  grows : ∀ q c, d.file q = some c → d'.file q = some c

theorem Grown.refl (d : Disk) : Grown d d := ⟨rfl, rfl, fun _ _ h => h⟩

theorem Grown.trans {d d' d'' : Disk} (h : Grown d d') (h' : Grown d' d'') : Grown d d'' :=
  ⟨h'.link.trans h.link, h'.mark.trans h.mark, fun q c hc => h'.grows q c (h.grows q c hc)⟩

theorem Grown.resolve {d d' : Disk} (h : Grown d d') (p : Path) : d'.resolve p = d.resolve p := by
  unfold Disk.resolve
  rw [h.link]

theorem Grown.read {d d' : Disk} (h : Grown d d') {p : Path} {c : Bytes}
    (hc : d.read p = some c) : d'.read p = some c := by
  obtain ⟨q, hq, hf⟩ := Option.bind_eq_some_iff.mp hc
  exact Option.bind_eq_some_iff.mpr ⟨q, (h.resolve p).trans hq, h.grows q c hf⟩

/-- The file is where neither store has a link on its path. -/
def PlainIn (d : Disk) (src dst : ModelStore) (rel : Path) : Prop :=
  Links.Plain d.link (src.at rel) ∧ Links.Plain d.link (dst.at rel)

/-- The copy of a file, proven by what was read of the original. -/
def Proven (sha : Bytes → D) (c : Bytes) (d : Disk) (dst : ModelStore) (rel : Path) : Prop :=
  ∃ c', d.read (dst.at rel) = some c' ∧ sha c' = sha c

/-- A file that was brought: its copy is there and proven; its original, and whatever else
the source store holds, is as it was. -/
theorem bring_ok {d d' : Disk} {rel : Path} (hapart : Links.Apart src.path.parts dst.path.parts)
    (hplain : PlainIn d src dst rel) (h : bring sha d src dst rel = .ok d') :
    Grown d d' ∧ (∀ r, d'.file (src.at r) = d.file (src.at r)) ∧
      ∃ c, d.read (src.at rel) = some c ∧ Proven sha c d' dst rel := by
  unfold bring at h
  split at h
  · cases h
  · next c hc =>
    split at h
    · cases h
    · split at h
      · next c' hc' =>
        split at h
        · next hproves =>
          cases h
          unfold proves at hproves
          rw [Bool.and_eq_true, decide_eq_true_eq, decide_eq_true_eq] at hproves
          exact ⟨.refl d, fun _ => rfl, c, hc, c', hc', hproves.2⟩
        · cases h
      · next hnone =>
        rw [entry_of_plain hplain.2] at h
        cases h
        have hfile : d.file (dst.at rel) = none := (read_of_plain hplain.2) ▸ hnone
        -- the new file stands under the target's root, and nothing stood there
        have hentry (q : Path) : d.entry (dst.at rel) = some q ↔ dst.at rel = q := by
          rw [entry_of_plain hplain.2, Option.some.injEq]
        have hset (q : Path) : (d.setFile (dst.at rel) c).file q =
            if dst.at rel = q then some c else d.file q := if_congr (hentry q) rfl rfl
        have hlink : (d.setFile (dst.at rel) c).link = d.link := by
          funext q
          refine (if_congr (hentry q) rfl rfl).trans ?_
          split
          · next heq => exact (heq ▸ hplain.2 _ (List.prefix_refl _)).symm
          · rfl
        have hgrown : Grown d (d.setFile (dst.at rel) c) := by
          refine ⟨hlink, rfl, fun q c' hq => ?_⟩
          rw [hset, if_neg, hq]
          rintro rfl
          rw [hfile] at hq
          cases hq
        refine ⟨hgrown, fun r => ?_, c, hc, c, ?_, rfl⟩
        · rw [hset, if_neg]
          exact hapart.symm.append_ne _ _
        · rw [read_of_plain (hgrown.link ▸ hplain.2), hset, if_pos rfl]

/-- **All the files of an item, brought.** By induction on the files: what is brought later
changes no copy that is there. -/
theorem bringAll_ok {d d' : Disk} {files : List Path}
    (hapart : Links.Apart src.path.parts dst.path.parts)
    (hplain : ∀ rel ∈ files, PlainIn d src dst rel) (h : bringAll sha src dst files d = .ok d') :
    Grown d d' ∧ ∀ rel ∈ files, ∃ c, d.read (src.at rel) = some c ∧ Proven sha c d' dst rel := by
  induction files generalizing d with
  | nil =>
    cases h
    exact ⟨.refl _, fun _ hm => absurd hm List.not_mem_nil⟩
  | cons rel files ih =>
    obtain ⟨d₁, hbring, h⟩ := Except.bind_eq_ok h
    obtain ⟨hgrown, hsource, c, hc, c', hc', hsha⟩ :=
      bring_ok hapart (hplain rel List.mem_cons_self) hbring
    have hplain₁ (r : Path) (hr : r ∈ files) : PlainIn d₁ src dst r := by
      obtain ⟨hs, ht⟩ := hplain r (List.mem_cons_of_mem rel hr)
      exact ⟨hgrown.link ▸ hs, hgrown.link ▸ ht⟩
    obtain ⟨hgrown', hproven⟩ := ih hplain₁ h
    refine ⟨hgrown.trans hgrown', fun r hr => ?_⟩
    rcases List.mem_cons.mp hr with rfl | hr
    · exact ⟨c, hc, c', hgrown'.read hc', hsha⟩
    · obtain ⟨cr, hcr, hp⟩ := hproven r hr
      refine ⟨cr, ?_, hp⟩
      -- the original was read from the disk as it stood before
      have hs := (hplain r (List.mem_cons_of_mem rel hr)).1
      rw [read_of_plain (hplain₁ r hr).1, hsource] at hcr
      rw [read_of_plain hs]
      exact hcr

theorem unlinkAll_keeps {d : Disk} {files : List Path} {rel : Path}
    (hapart : Links.Apart src.path.parts dst.path.parts)
    (hfiles : ∀ f ∈ files, Links.Plain d.link (src.at f)) (hrel : Links.Plain d.link (dst.at rel)) :
    (files.foldl (fun d f => d.unlink (src.at f)) d).read (dst.at rel) = d.read (dst.at rel) := by
  induction files generalizing d with
  | nil => rfl
  | cons f files ih =>
    have hgone : decide (d.entry (src.at f) = some (dst.at rel)) = false := by
      rw [entry_of_plain (hfiles f List.mem_cons_self), decide_eq_false_iff_not]
      exact fun heq => hapart.append_ne _ _ (Option.some.inj heq)
    have hstep : (d.unlink (src.at f)).read (dst.at rel) = d.read (dst.at rel) :=
      read_remove hrel hgone
    have hrest (g : Path) (hg : g ∈ files) : Links.Plain (d.unlink (src.at f)).link (src.at g) :=
      plain_remove (hfiles g (List.mem_cons_of_mem f hg)) _
    rw [List.foldl_cons, ← hstep]
    exact ih hrest (plain_remove hrel _)

/-- **The originals go, and the copies stay.** -/
theorem removeItem_keeps {d : Disk} {item : Item} {rel : Path}
    (hapart : Links.Apart src.path.parts dst.path.parts)
    (hfolder : ∀ folder, item.folder = some folder → Links.Plain d.link (src.at folder))
    (hfiles : ∀ f ∈ item.files, Links.Plain d.link (src.at f))
    (hrel : Links.Plain d.link (dst.at rel)) :
    (removeItem src item d).read (dst.at rel) = d.read (dst.at rel) := by
  unfold removeItem
  split
  · next folder hitem =>
    refine read_remove hrel ?_
    rw [entry_of_plain (hfolder folder hitem), Option.any_some, decide_eq_false_iff_not]
    -- what stands under the folder stands under the source's root
    exact fun hp => hapart.append rel ((List.prefix_append _ _).trans hp)
  · exact unlinkAll_keeps hapart hfiles hrel

/-- A move that removed its originals was of files that stand apart, and left a proven copy
of each. -/
def SafeMove (sha : Bytes → D) (d : Disk) (src dst : ModelStore) (item : Item) : Prop :=
  ∀ d', moveItem sha d src dst item = .ok d' → ∀ rel ∈ item.files,
    d.resolve (src.at rel) ≠ d.resolve (dst.at rel) ∧
      ∃ c, d.read (src.at rel) = some c ∧ Proven sha c d' dst rel

/-- No link stands on the paths of the item, in either store. -/
def PlainItem (d : Disk) (src dst : ModelStore) (item : Item) : Prop :=
  (∀ folder, item.folder = some folder → Links.Plain d.link (src.at folder)) ∧
    ∀ rel ∈ item.files, PlainIn d src dst rel

theorem safeMove {d : Disk} {item : Item} (hapart : Links.Apart src.path.parts dst.path.parts)
    (hplain : PlainItem d src dst item) : SafeMove sha d src dst item := by
  intro d' h rel hrel
  obtain ⟨hfolder, hfiles⟩ := hplain
  obtain ⟨d₁, hbring, h⟩ := Except.bind_eq_ok h
  obtain ⟨hgrown, hproven⟩ := bringAll_ok hapart hfiles hbring
  split at h
  · cases h
  · split at h
    · cases h
    · cases h
      obtain ⟨hs, ht⟩ := hfiles rel hrel
      obtain ⟨c, hc, c', hc', hsha⟩ := hproven rel hrel
      refine ⟨?_, c, hc, c', ?_, hsha⟩
      · rw [resolve_of_plain hs, resolve_of_plain ht]
        exact fun heq => hapart.append_ne _ _ (Option.some.inj heq)
      · rw [removeItem_keeps hapart (fun f hf => hgrown.link ▸ hfolder f hf)
          (fun f hf => hgrown.link ▸ (hfiles f hf).1) (hgrown.link ▸ ht)]
        exact hc'

/-- A move that removed its originals found the stores there at its first step. -/
theorem moveItem_here {d d' : Disk} {item : Item} (h : moveItem sha d src dst item = .ok d') :
    storesHere d src dst = true := by
  obtain ⟨d₁, hbring, h⟩ := Except.bind_eq_ok h
  cases hfiles : item.files with
  | nil =>
    rw [hfiles] at hbring
    cases hbring
    split at h
    · cases h
    · next hhere => exact eq_true_of_ne_false hhere
  | cons rel files =>
    rw [hfiles] at hbring
    obtain ⟨d₂, hbring, -⟩ := Except.bind_eq_ok hbring
    unfold bring at hbring
    split at hbring
    · cases hbring
    · split at hbring
      · cases hbring
      · next hhere => exact eq_true_of_ne_false hhere

/-- **Two marks are two directories**, whatever the links: a move that removed its originals
read the mark of each of its libraries. -/
theorem resolve_ne_of_marks {d d' : Disk} {item : Item} (hsrc : src.role = .library)
    (hdst : dst.role = .library) (hids : src.id ≠ dst.id)
    (h : moveItem sha d src dst item = .ok d') :
    d.resolve src.path.parts ≠ d.resolve dst.path.parts := by
  intro heq
  have hhere := moveItem_here h
  unfold storesHere ModelStore.here at hhere
  rw [hsrc, hdst, decide_eq_false (by decide), Bool.false_or, Bool.false_or,
    Bool.and_eq_true, Option.any_eq_true, Option.any_eq_true] at hhere
  obtain ⟨⟨m, hm, hid⟩, m', hm', hid'⟩ := hhere
  have hsame : d.readMark src.path.parts = d.readMark dst.path.parts := by
    unfold Disk.readMark
    rw [heq]
  rw [hm, hm'] at hsame
  cases hsame
  exact hids ((of_decide_eq_true hid).symm.trans (of_decide_eq_true hid'))

end Moves

/-! ### What the runs keep -/

/-- The path of a store is written with one slash in front, and no link stands on it. -/
def Linkless (d : Disk) (m : ModelStore) : Prop :=
  m.path.double = false ∧ Links.Plain d.link m.path.parts

/-- Two stores lead to one directory, or to one within the other. -/
def SharesFiles (d : Disk) (a b : ModelStore) : Prop :=
  ∃ p q, d.resolve a.path.parts = some p ∧ d.resolve b.path.parts = some q ∧ (p <+: q ∨ q <+: p)

variable {D : Type} [DecidableEq D] (sha : Bytes → D)

/-- What the registry gives of two of its stores. -/
structure PairApart (d : Disk) (a b : ModelStore) : Prop where
  text : TextApart a.path b.path
  files : Linkless d a → Linkless d b → ¬ SharesFiles d a b
  moves : Linkless d a → Linkless d b → ∀ item, PlainItem d a b item → SafeMove sha d a b item
  marks : a.role = .library → b.role = .library → ∀ item d', moveItem sha d a b item = .ok d' →
    d.resolve a.path.parts ≠ d.resolve b.path.parts

/-- No store stands twice on the list, and any two are apart. -/
def StoresApart (s : Registry) : Prop :=
  s.stores.Nodup ∧ ∀ a ∈ s.stores, ∀ b ∈ s.stores, a ≠ b → PairApart sha s.disk a b

variable {sha}

theorem not_sharesFiles {d : Disk} {a b : ModelStore} (hab : Links.Apart a.path.parts b.path.parts)
    (ha : Links.Plain d.link a.path.parts) (hb : Links.Plain d.link b.path.parts) :
    ¬ SharesFiles d a b := by
  rintro ⟨p, q, hp, hq, hshare⟩
  rw [resolve_of_plain ha] at hp
  rw [resolve_of_plain hb] at hq
  cases hp
  cases hq
  cases hshare with
  | inl h => exact hab.1 h
  | inr h => exact hab.2 h

theorem Listed.pairwise_stores {s : Registry} (h : Listed s) :
    s.stores.Pairwise fun a b => TextApart a.path b.path := by
  have hpaths : s.stores.map ModelStore.path = s.paths := by
    unfold Registry.stores Registry.paths
    rw [List.map_cons, List.map_map]
    rfl
  exact List.pairwise_map.mp (hpaths ▸ h.apart)

theorem Listed.ids_ne {s : Registry} (h : Listed s) {a b : ModelStore} (ha : a ∈ s.stores)
    (hb : b ∈ s.stores) (hne : a ≠ b) (har : a.role = .library) (hbr : b.role = .library) :
    a.id ≠ b.id := by
  have hrow {m : ModelStore} (hm : m ∈ s.stores) (hr : m.role = .library) :
      ∃ r ∈ s.saved, r.store = m := by
    rcases List.mem_cons.mp hm with rfl | hm
    · cases hr
    · exact List.mem_map.mp hm
  obtain ⟨r, hr, rfl⟩ := hrow ha har
  obtain ⟨r', hr', rfl⟩ := hrow hb hbr
  intro hid
  exact hne (congrArg Row.store (List.inj_on_of_nodup_map h.ids hr hr' hid))

/-- **The stores of one host share no files**, as far as their paths go through no link. -/
theorem stores_apart {s : Registry}
    (h : System.Reach registry (fun s op => op.Clear s) s) : StoresApart sha s := by
  have hlisted := Listed.reach h
  have hpair := hlisted.pairwise_stores
  refine ⟨hpair.imp fun hab heq => ?_, fun a ha b hb hne => ?_⟩
  · have hself := hab
    unfold TextApart at hself
    rw [heq, sameOrNested_self] at hself
    cases hself
  · have : Std.Symm fun a b : ModelStore => TextApart a.path b.path := ⟨fun _ _ => TextApart.symm⟩
    have htext : TextApart a.path b.path := hpair.forall ha hb hne
    have happart (hla : Linkless s.disk a) (hlb : Linkless s.disk b) :
        Links.Apart a.path.parts b.path.parts := apart_of_text htext (hla.1.trans hlb.1.symm)
    exact {
      text := htext
      files := fun hla hlb => not_sharesFiles (happart hla hlb) hla.2 hlb.2
      moves := fun hla hlb item hitem => safeMove (happart hla hlb) hitem
      marks := fun har hbr item d' =>
        resolve_ne_of_marks har hbr (hlisted.ids_ne ha hb hne har hbr) }

/-! ### A library added, on two disks -/

/-- The paths of the names, one level down or two. -/
def below (name : String) : Path := [Text.of name]

def within (dir name : String) : Path := [Text.of dir, Text.of name]

/-- The models directory with one model, and a share mounted beside it. -/
def shareDisk : Disk where
  link := fun _ => none
  dir := fun p => p = below "models" ∨ p = within "mnt" "nas"
  mounted := fun p => p = within "mnt" "nas"
  mark := fun _ => none
  file := fun p => if p = within "models" "x.gguf" then some [7] else none

/-- The same model, and a link to its directory. -/
def aliasDisk : Disk :=
  { shareDisk with
    link := fun p =>
      if p = within "mnt" "nas" then some ⟨true, [some (Text.of "models")]⟩ else none }

def onlyModels (d : Disk) : Registry where
  modelsDir := normpath "/models"
  saved := []
  disk := d

theorem onlyModels_listed (d : Disk) : Listed (onlyModels d) :=
  ⟨List.pairwise_singleton _ _, List.nodup_nil⟩

def addNas : Op := .add ⟨"/mnt/nas", "nas", true, "lib-1", true, true⟩

theorem addNas_reached {ok : Registry → Op → Prop} {d : Disk} (h : ok (onlyModels d) addNas) :
    System.Reach registry ok (addNas.run (onlyModels d)) :=
  (System.Reach.init (onlyModels_listed d)).step h rfl

theorem stores_apart_share :
    (addNas.run (onlyModels shareDisk)).stores.map ModelStore.path =
        [normpath "/models", normpath "/mnt/nas"] ∧
      StoresApart (id : Bytes → Bytes) (addNas.run (onlyModels shareDisk)) :=
  ⟨by decide, stores_apart (addNas_reached trivial)⟩

def modelsStore : ModelStore := ⟨LOCAL_ID, [], normpath "/models", .localDir⟩

def nasStore : ModelStore := ⟨"lib-1", "nas", normpath "/mnt/nas", .library⟩

/-- The library added over a link to the models directory is on the list; it shares all its
files with it, and a move to it proves the file against itself and leaves it nowhere. -/
theorem aliased_store_loses_file :
    ∃ s, System.Reachable registry s ∧ s.stores = [modelsStore, nasStore] ∧
      SharesFiles s.disk modelsStore nasStore ∧
      s.disk.resolve (modelsStore.at (below "x.gguf")) =
        s.disk.resolve (nasStore.at (below "x.gguf")) ∧
      s.disk.read (modelsStore.at (below "x.gguf")) = some [7] ∧
      ∃ d', moveItem (id : Bytes → Bytes) s.disk modelsStore nasStore
          ⟨none, [below "x.gguf"]⟩ = .ok d' ∧
        d'.read (modelsStore.at (below "x.gguf")) = none ∧
        d'.read (nasStore.at (below "x.gguf")) = none := by
  refine ⟨addNas.run (onlyModels aliasDisk), addNas_reached trivial, by decide,
    ⟨below "models", below "models", by decide, by decide,
      .inl (List.prefix_refl _)⟩, by decide, by decide, _, rfl,
    by decide, by decide⟩

end Stores
