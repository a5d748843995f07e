import Caravan.StoreMoves.Folder

/-!
# One item, to its end

The source loses a file or a folder in one place each, and both stand behind the
last look. A file goes when it is proven (`sound_unlink`); a folder goes when all
its files are proven, its links are planted and nothing has changed since the
look (`sound_rmtree`).
-/

namespace StoreMoves

open Crash Prog World Relation Mover Io

variable {D : Type} {orig : Origin} {plain : Prop}

/-! ### All files of the item -/

/-- Every file of the item is proven. -/
def AllProven (a : MoveItem D) : Prop := ∀ j < a.files.length, (a.file j).state = .proven

theorem lasting_allProven : Lasting (AllProven (D := D)) :=
  fun _ _ h hp j hj => (h.file j).2 (h.length ▸ hj) (hp j (h.length ▸ hj))

theorem AllProven.mem {a : MoveItem D} (h : AllProven a) {f : MoveFile D} (hf : f ∈ a.files) :
    f.state = .proven := by
  obtain ⟨k, hk, rfl⟩ := List.mem_iff_getElem.mp hf
  have := h k hk
  rwa [MoveItem.file, List.getD_eq_getElem _ _ hk] at this

theorem Lasting.and {Z Z' : MoveItem D → Prop} (h : Lasting Z) (h' : Lasting Z') :
    Lasting fun a => Z a ∧ Z' a :=
  fun a b hon hz => ⟨h a b hon hz.1, h' a b hon hz.2⟩

theorem Lasting.stable {Z : MoveItem D → Prop} (h : Lasting Z) (i : ℕ) :
    Stable orig plain (Quiet plain) (fun w => Z (w.job.item i)) :=
  Stable.item i fun a b hs => h a b hs.on

/-- A step that answers yes for each file leaves them all as it left each. -/
theorem sound_untilFalse {i : ℕ} {P : ℕ → MoveItem D → Prop} (hP : ∀ j, Lasting (P j))
    {step : ℕ → Mover D Bool} (js : List ℕ) {Z : MoveItem D → Prop} (hZ : Lasting Z)
    (hstep : ∀ Z, Lasting Z → ∀ j, Sound orig plain (fun w => Z (w.job.item i)) (step j)
      (fun b w => Z (w.job.item i) ∧ (b = true → P j (w.job.item i))) (fun _ => True)) :
    Sound orig plain (fun w => Z (w.job.item i)) (untilFalse js step)
      (fun b w => Z (w.job.item i) ∧ (b = true → ∀ j ∈ js, P j (w.job.item i)))
      (fun _ => True) := by
  induction js generalizing Z with
  | nil => exact Sound.ret fun _ _ h => ⟨h, by simp⟩
  | cons j js ih =>
    refine (hstep Z hZ j).bind fun b => Sound.ite (fun hb => ?_) fun _ =>
      Sound.ret fun _ _ h => ⟨h.1, by simp⟩
    refine (ih (hZ.and (hP j))).conseq (fun w _ h => ⟨h.1, h.2 hb⟩) (fun r w _ h => ?_)
      fun _ _ => id
    refine ⟨h.1.1, fun hr k hk => ?_⟩
    rcases List.mem_cons.mp hk with rfl | hk
    · exact h.1.2
    · exact h.2 hr k hk

variable [DecidableEq D]

theorem sound_bringAll {sha : Bytes → D} (hsha : Function.Injective sha) (bypasses : Bool)
    {i : ℕ} {Z : MoveItem D → Prop} (hZ : Lasting Z) :
    Sound orig plain (fun w => Z (w.job.item i)) (bringAll sha bypasses i)
      (fun b w => Z (w.job.item i) ∧ (b = true → AllProven (w.job.item i))) (fun _ => True) := by
  refine sound_jobItem fun item _ => ?_
  let P : ℕ → MoveItem D → Prop := fun j a => j < a.files.length → (a.file j).state = .proven
  have hP : ∀ j, Lasting (P j) := fun j a b h hp hj =>
    (h.file j).2 (h.length ▸ hj) (hp (h.length ▸ hj))
  have hlen : Lasting fun a : MoveItem D => a.files.length = item.files.length :=
    fun _ _ h hl => h.length.trans hl
  refine ((sound_untilFalse hP (List.range item.files.length) (hZ.and hlen) ?_).conseq
    (fun w _ h => ⟨h.1, by rw [h.2]⟩) (fun b w _ h => ⟨h.1.1, fun hb j hj => ?_⟩) fun _ _ => id)
  · intro Y hY j
    refine Sound.bind (Q := fun f w => Y (w.job.item i) ∧ f = (w.job.item i).file j)
      (Sound.read fun _ _ h => ⟨h, rfl⟩) fun f => Sound.ite (fun _ => ?_) fun hf => ?_
    · exact (sound_bring hY hsha bypasses).pre fun _ _ h => h.1
    · exact Sound.ret fun w _ h => ⟨h.1, fun _ _ => h.2 ▸ not_not.mp hf⟩
  · exact h.2 hb j (List.mem_range.mpr (h.1.2 ▸ hj)) hj

/-! ### The removal -/

omit [DecidableEq D] in
theorem sound_removing {X Y : World D → Prop} (hY : Stable orig plain (Quiet plain) Y) {i : ℕ}
    {m : Mover D Unit} {Q : World D → Prop} (hm : Sound orig plain X m (fun _ => Q) Y)
    (hQ : ∀ w, Core orig plain w → Y w → Q w) :
    Sound orig plain X (removing i m) (fun b w => b = true → Q w) (fun _ => True) := by
  have hne : ItemState.skipped ≠ .done := by decide
  refine Sound.exceptOs (Y := Y) (hm.bind fun _ => Sound.ret fun _ _ h _ => h) (fun x => ?_)
    fun _ _ _ => trivial
  refine Sound.ite (fun _ => Sound.ret fun w hc h _ => hQ w hc h) fun _ => ?_
  refine (((Sound.of_moves (moves_close i hne _ _) hY).and (returns_close i _ _ _)).conseq
    (fun _ _ => id) (fun _ _ _ h => ?_) fun _ _ _ => trivial)
  simp [h.2]

/-- The item has `n` files, all of them proven. -/
def ProvenFiles (n : ℕ) (a : MoveItem D) : Prop := AllProven a ∧ a.files.length = n

omit [DecidableEq D] in
theorem lasting_provenFiles (n : ℕ) : Lasting (ProvenFiles (D := D) n) :=
  lasting_allProven.and fun _ _ h hn => h.length.trans hn

/-- Its file `j` is one of them and called `rel`. -/
def AllProvenAt (n j : ℕ) (rel : String) (a : MoveItem D) : Prop :=
  ProvenFiles n a ∧ j < n ∧ (a.file j).rel = rel

omit [DecidableEq D] in
theorem lasting_allProvenAt (n j : ℕ) (rel : String) : Lasting (AllProvenAt (D := D) n j rel) :=
  (lasting_provenFiles n).and fun _ _ h hp => ⟨hp.1, (h.file j).1.trans hp.2⟩

omit [DecidableEq D] in
/-- A proven file may go: where nobody writes the source, the target holds it. -/
theorem Core.unlink {w : World D} (h : Core orig plain w) {i n j : ℕ} {rel : String}
    (hp : AllProvenAt n j rel (w.job.item i)) : Core orig plain
      { w with source := { w.source with tree := Assoc.del w.source.tree rel } } := by
  obtain ⟨⟨hall, rfl⟩, hlt, hrel⟩ := hp
  have hok := h.job _ (MoveJob.item_mem (MoveJob.lt_of_file hlt))
  have hmem := MoveItem.file_mem hlt
  refine h.shrink ⟨fun p n hn => ?_, fun hd => hd.del rel, id, id, TreeStep.refl _, rfl,
    fun _ h => h, rfl⟩ (FromItems.refl _) (FromItems.right _ _) fun hpl ht p n₀ hn => ?_
  · rw [Assoc.get_del] at hn
    split at hn
    · simp at hn
    · exact hn
  · by_cases hpr : p = rel
    · subst hpr
      right
      obtain ⟨st, hst, ⟨c, hc⟩, hsec⟩ := hok.proven _ hmem (hall j hlt)
      rw [hrel] at hc hsec
      -- the stamp on record is the source's own, for it never had another
      have hu := h.untouched hpl ht
      obtain ⟨n₁, h₁, hs₁, -⟩ := hu.seen _ _ _ hc
      obtain rfl : n₀ = n₁ := by simpa using (hu.same p n₀ hn).symm.trans h₁
      exact ⟨hrel ▸ hok.final _ hmem, hsec n₀ hn hs₁⟩
    · left
      exact (fileAt_congr (Assoc.get_del_of_ne _ hpr)).trans hn

omit [DecidableEq D] in
theorem sound_unlink (i n j : ℕ) (rel : String) :
    Sound orig plain (fun w : World D => AllProvenAt n j rel (w.job.item i)) (unlink .source rel)
      (fun _ w => AllProvenAt n j rel (w.job.item i))
      (fun w => AllProvenAt n j rel (w.job.item i)) := by
  have hX : Stable orig plain (Quiet plain)
      (fun w : World D => AllProvenAt n j rel (w.job.item i)) :=
    (lasting_allProvenAt n j rel).stable i
  refine Sound.op hX.look (fun w _ hw _ => ?_) (fun _ _ _ => id) fun _ _ => id
  unfold World.store World.setStore Store.setCur Store.cur
  dsimp only
  split
  · exact hw.write (fun _ => id) rfl rfl rfl fun _ hc hx => ⟨hc.unlink hx, hx⟩
  · exact hw.quiet (.bareSource w _ fun hb => hb.del rel) fun _ _ hx => hx

omit [DecidableEq D] in
theorem sound_removeFile (i : ℕ) {n j : ℕ} (hj : j < n) :
    Sound orig plain (fun w : World D => ProvenFiles n (w.job.item i)) (removeFile i j)
      (fun b w => b = true → ProvenFiles n (w.job.item i)) (fun _ => True) := by
  refine Sound.bind (Q := fun f w => AllProvenAt n j f.rel (w.job.item i))
    (Sound.read fun w _ h => ⟨h, hj, rfl⟩) fun f => ?_
  have hX : Stable orig plain (Quiet plain)
      (fun w : World D => AllProvenAt n j f.rel (w.job.item i)) :=
    (lasting_allProvenAt n j f.rel).stable i
  have hphase : Moves (Look plain) (setFile i j fun f : MoveFile D => { f with phase := .removed }) :=
    moves_setFile i j fun _ => ⟨rfl, rfl, rfl, rfl⟩
  have stay : ∀ {m : Mover D Unit}, Moves (Quiet plain) m → Sound orig plain
      (fun w => ProvenFiles n (w.job.item i)) m (fun _ w => ProvenFiles n (w.job.item i))
      (fun _ => True) := fun hm =>
    (Sound.of_moves hm ((lasting_provenFiles n).stable i)).conseq (fun _ _ => id)
      (fun _ _ _ => id) fun _ _ _ => trivial
  refine (sound_removing hX (sound_unlink i n j f.rel) fun _ _ => id).bind fun b =>
    Sound.ite (fun hb => ?_) fun hb => ?_
  · exact Sound.ret fun _ _ _ h => absurd h (by simp)
  · refine Sound.pre (X := fun w => ProvenFiles n (w.job.item i)) ?_
      fun w _ h => (h (by simpa using hb)).1
    exact (stay hphase.quiet).bind fun _ => (stay (moves_pruneDirs _)).bind fun _ =>
      Sound.ret fun _ _ h _ => h

omit [DecidableEq D] in
theorem sound_removeFiles (i n : ℕ) (js : List ℕ) (hjs : ∀ j ∈ js, j < n) :
    Sound orig plain (fun w : World D => ProvenFiles n (w.job.item i))
      (untilFalse js fun j => removeFile i j)
      (fun b w => b = true → ProvenFiles n (w.job.item i)) (fun _ => True) := by
  induction js with
  | nil => exact Sound.ret fun _ _ h _ => h
  | cons j js ih =>
    refine (sound_removeFile i (hjs j List.mem_cons_self)).bind fun b =>
      Sound.ite (fun hb => ?_) fun _ => Sound.ret fun _ _ _ h => absurd h (by simp)
    exact (ih fun k hk => hjs k (List.mem_cons_of_mem _ hk)).pre fun _ _ h => h hb

/-! ### The removal of a folder -/

/-- What stands before a folder is removed. -/
structure Removable (i : ℕ) (d : String) (w : World D) : Prop where
  folder : (w.job.item i).folder = d
  scanned : (w.job.item i).scanned = true
  proven : AllProven (w.job.item i)
  planted : AllPlanted i w
  ready : ReadyItem i w

omit [DecidableEq D] in
theorem stable_removable (i : ℕ) (d : String) :
    Stable orig plain (Quiet plain) (Removable (D := D) i d) := by
  intro w w' hq hf hc h
  have hs := hq.items.1.item i
  exact ⟨hs.folder.trans h.folder, hs.scanned.trans h.scanned,
    lasting_allProven _ _ hs.on h.proven, stable_allPlanted i w w' hq hf hc h.planted,
    stable_readyItem i w w' hq hf hc h.ready⟩

omit [DecidableEq D] in
/-- **Everything in the folder is at the target.** -/
theorem carried_of_removable {w : World D} {i : ℕ} {d : String} (hc : Core orig plain w)
    (hd : d ≠ "") (h : Removable i d w) (hcalm : w.calm = true) :
    Carried ⟨d, w.source.tree, w.target.tree⟩ := by
  have hi : i < w.job.items.length := by
    by_contra hge
    have := h.folder
    rw [MoveJob.item_of_le (by omega)] at this
    exact hd this.symm
  have hok := hc.job _ (MoveJob.item_mem hi)
  have hne : (w.job.item i).folder ≠ "" := h.folder ▸ hd
  rintro p q rfl
  refine ⟨fun n hn => ?_, fun t ht => ?_⟩
  · obtain ⟨f, hf, hrel, hst⟩ := h.ready hne hcalm q n (by
      rw [h.folder]
      exact fileAt_eq_some.mpr hn)
    rw [h.folder] at hrel
    obtain ⟨st, hst', -, hsec⟩ := hok.proven f hf (h.proven.mem hf)
    obtain rfl : n.stamp = st := by simpa using hst.symm.trans hst'
    obtain ⟨n', hn', -, hcont⟩ := hsec n (hrel ▸ fileAt_eq_some.mpr hn) rfl
    exact ⟨n', fileAt_eq_some.mp (hrel ▸ hn'), hcont⟩
  · have hin : (inside? (w.job.item i).folder (within d q)).isSome := by
      rw [h.folder, inside?_within]
      rfl
    exact h.planted _ ((hok.links hne h.scanned).2 _ _ ht hin)

omit [DecidableEq D] in
theorem Inv.rmtree {w : World D} (hp : ¬ plain) {i : ℕ} {d : String} (hd : d ≠ "")
    (h : Inv orig plain (Removable i d) w) (left : List String) :
    Inv orig plain (fun _ => True) (removed d left w) := by
  have hclear : (removed d left w).faults = [] → w.faults = [] ∧ w.calm = true ∧
      removed d left w = { w with
        removals := ⟨d, w.source.tree, w.target.tree⟩ :: w.removals
        source := (removed d left w).source } := by
    intro hf
    obtain ⟨hcalm, he⟩ := faultIf_nil (f := .lateEdit) (w := { w with
      removals := ⟨d, w.source.tree, w.target.tree⟩ :: w.removals }) (c := w.calm = false) hf
    have hw : removed d left w = { w with
        removals := ⟨d, w.source.tree, w.target.tree⟩ :: w.removals
        source := (removed d left w).source } := by
      unfold Io.removed
      dsimp only
      rw [he]
    exact ⟨by rw [hw] at hf; exact hf, by simpa using hcalm, hw⟩
  have htree : ∀ p n, Assoc.Distinct w.source.tree →
      Assoc.get (removed d left w).source.tree p = some n → Assoc.get w.source.tree p = some n :=
    fun p n hdist hn => hdist.mem_iff_get.mp (List.mem_filter.mp (Assoc.mem_of_get hn)).1
  refine ⟨fun hpl => absurd hpl hp, fun hpl => absurd hpl hp, fun hf => ?_, fun hf r hr => ?_,
    fun _ => trivial⟩
  · obtain ⟨hf, -, hw⟩ := hclear hf
    have hc := h.core hf
    rw [hw]
    exact hc.shrink ⟨fun p n hn => htree p n hc.distinct hn, fun hdist => hdist.filter _, id, id,
      TreeStep.refl _, rfl, fun _ h => h, rfl⟩ (FromItems.refl _) (FromItems.right _ _)
      fun hpl => absurd hpl hp
  · obtain ⟨hf, hcalm, hw⟩ := hclear hf
    rw [hw] at hr
    rcases List.mem_cons.mp hr with rfl | hr
    · exact carried_of_removable (h.core hf) hd (h.extra hf) hcalm
    · exact h.carried hf r hr

omit [DecidableEq D] in
theorem sound_rmtree (hp : ¬ plain) (i : ℕ) {d : String} (hd : d ≠ "") :
    Sound orig plain (Removable (D := D) i d) (rmtree d) (fun _ _ => True) (fun _ => True) := by
  refine Sound.act fun e w hw => ?_
  have hw := hw.around (stable_removable i d).look e
  dsimp only
  generalize World.around e w = w at hw ⊢
  cases hc : w.source.here && w.source.tree.any (fun p => isUnder d p.1) with
  | false => exact hw.any
  | true =>
    cases e.fails with
    | none => exact hw.rmtree hp hd _
    | some x => exact hw.rmtree hp hd _

omit [DecidableEq D] in
theorem sound_removeFolder (hp : ¬ plain) (i : ℕ) {d : String} (hd : d ≠ "") :
    Sound orig plain (Removable (D := D) i d) (removeFolder i d) (fun _ _ => True)
      (fun _ => True) := by
  have hany : Stable orig plain (Quiet plain) (fun _ : World D => True) := Stable.const _
  have hphase : Moves (Quiet plain) (setItem i fun item : MoveItem D =>
      { item with files := item.files.map fun f => { f with phase := .removed } }) :=
    Moves.quiet (moves_setItem i fun a => ⟨rfl, rfl, rfl, rfl, id,
      List.forall₂_map_right_iff.mpr (forall₂_refl (fun _ => ⟨rfl, rfl, rfl, rfl⟩) _)⟩)
  refine (sound_removing hany (sound_rmtree hp i hd) fun _ _ _ => trivial).bind fun b =>
    Sound.ite (fun _ => Sound.ret fun _ _ _ => trivial) fun _ => ?_
  refine Sound.pre (X := fun _ => True) ?_ fun _ _ _ => trivial
  exact (Sound.of_moves hphase hany).bind fun _ =>
    (Sound.of_moves (moves_pruneDirs _) hany).bind fun _ => Sound.ret fun _ _ _ => trivial

/-- What stands before the removal of an item. -/
def Kept (i : ℕ) (w : World D) : Prop :=
  AllProven (w.job.item i) ∧ ReadyItem i w ∧
    ((w.job.item i).folder ≠ "" → (w.job.item i).scanned = true ∧ AllPlanted i w)

omit [DecidableEq D] in
theorem sound_remove (i : ℕ) :
    Sound orig plain (Kept (D := D) i) (remove i)
      (fun b w => b = true → plain → AllProven (w.job.item i)) (fun _ => True) := by
  refine sound_jobItem fun item hp => Sound.ite (fun hne => ?_) fun _ => ?_
  · have hpl : ¬ plain := fun h => hne (hp h)
    refine (sound_removeFolder hpl i hne).conseq (fun w _ ⟨⟨hall, hr, hf⟩, he⟩ => ?_)
      (fun _ _ _ _ _ h => absurd h hpl) fun _ _ => id
    subst he
    exact ⟨rfl, (hf hne).1, hall, (hf hne).2, hr⟩
  · refine (sound_removeFiles i item.files.length _ fun j hj => List.mem_range.mp hj).conseq
      (fun w _ h => ⟨h.1.1, by rw [h.2]⟩) (fun b w _ h hb _ => (h hb).1) fun _ _ => id

/-! ### The item -/

omit [DecidableEq D] in
/-- An item is closed as done with its files at the target. -/
theorem sound_closeDone (i : ℕ) :
    Sound orig plain (fun w : World D => plain → AllProven (w.job.item i)) (close i .done "" "")
      (fun _ _ => True) (fun _ => True) := by
  have hset : Sound orig plain (fun w : World D => plain → AllProven (w.job.item i))
      (setItem i fun item => { item with state := .done, note := "", detail := "" })
      (fun _ _ => True) (fun _ => True) := by
    refine holds_assign fun w hw => hw.write (fun _ hp => hp.setItem i fun _ => ⟨rfl, rfl⟩) rfl rfl rfl
      ?_
    intro _ hc hall
    refine ⟨hc.setJob (fun item hi => ?_) fun hp ht item hi hst f hf n₀ h₀ => ?_, trivial⟩
    · rcases mem_modify hi with hi | ⟨a, ha, rfl⟩
      · exact hc.job item hi
      · have hok := hc.job a (List.mem_of_getElem? ha)
        exact ⟨hok.final, hok.linkFinal, hok.proven, hok.links, hok.inFolder⟩
    · rcases mem_modify hi with hi | ⟨a, ha, rfl⟩
      · exact hc.jobDone hp ht item hi hst f hf n₀ h₀
      · have hok := hc.job a (List.mem_of_getElem? ha)
        have hitem : w.job.item i = a := by
          simp [MoveJob.item, List.getD_eq_getElem?_getD, ha]
        obtain ⟨st, hstamp, ⟨c, hseen⟩, hsec⟩ :=
          hok.proven f hf ((hitem ▸ hall hp).mem hf)
        have hu := hc.untouched hp ht
        -- the source still has it, with the stamp it was proven with, or the target has it
        rcases hu.kept f.rel n₀ h₀ with hk | hk
        · obtain ⟨n₁, h₁, hs₁, -⟩ := hu.seen _ _ _ hseen
          obtain rfl : n₀ = n₁ := by simpa using h₀.symm.trans h₁
          exact ⟨hok.final f hf, hsec n₀ hk hs₁⟩
        · exact hk
  have hany : Stable orig plain (Quiet plain) (fun _ : World D => True) := Stable.const _
  unfold close
  rw [if_neg (by simp)]
  exact hset.bind fun _ => (Sound.of_moves moves_save.quiet hany).bind fun _ =>
    Sound.ret fun _ _ _ => trivial

/-- **One item, from any state it may be in to any it may be left in.** -/
theorem sound_runItem {sha : Bytes → D} (hsha : Function.Injective sha) (bypasses : Bool) (i : ℕ) :
    Sound orig plain (fun _ : World D => True) (runItem sha bypasses i) (fun _ _ => True)
      (fun _ => True) := by
  have hne : ItemState.skipped ≠ .done := by decide
  have hany : Stable orig plain (Quiet plain) (fun _ : World D => True) := Stable.const _
  have stop : ∀ {X : World D → Prop}, Sound orig plain X (pure ()) (fun _ _ => True)
      (fun _ => True) := Sound.ret fun _ _ _ => trivial
  refine sound_jobItem fun item hp => ?_
  have hfold : Lasting fun a : MoveItem D => a.folder = item.folder ∧
      (item.folder ≠ "" → a.scanned = true) :=
    fun _ _ h hz => ⟨h.folder.trans hz.1, fun hne => h.scanned.trans (hz.2 hne)⟩
  have hscan : Sound orig plain (fun w => True ∧ w.job.item i = item) (scanFirst i item)
      (fun b w => b = true → (w.job.item i).folder = item.folder ∧
        (item.folder ≠ "" → (w.job.item i).scanned = true)) (fun _ => True) := by
    refine Sound.ite (fun hs => ?_) fun hs => Sound.ret fun w _ h _ => ?_
    · refine (sound_scan (fun hpl => hs.1 (hp hpl)) i hs.1).conseq (fun w _ h => ?_)
        (fun b w _ h hb => ⟨(h hb).1, fun _ => (h hb).2⟩) fun _ _ => id
      rw [IsFolder, h.2]
    · rw [h.2]
      refine ⟨rfl, fun hne => ?_⟩
      simpa [hne] using hs
  refine hscan.bind fun b => Sound.ite (fun _ => stop) fun hb => ?_
  refine Sound.pre (X := fun w => (w.job.item i).folder = item.folder ∧
    (item.folder ≠ "" → (w.job.item i).scanned = true)) ?_ fun w _ h => h (by simpa using hb)
  refine (sound_bringAll hsha bypasses hfold).bind fun b => Sound.ite (fun _ => stop) fun hb => ?_
  have hZ : Stable orig plain (Quiet plain) (fun w => ((w.job.item i).folder = item.folder ∧
      (item.folder ≠ "" → (w.job.item i).scanned = true)) ∧ AllProven (w.job.item i)) :=
    (hfold.and lasting_allProven).stable i
  refine Sound.pre (X := fun w => ((w.job.item i).folder = item.folder ∧
    (item.folder ≠ "" → (w.job.item i).scanned = true)) ∧ AllProven (w.job.item i)) ?_
    fun w _ h => ⟨h.1, h.2 (by simpa using hb)⟩
  have hplant : Sound orig plain (fun w => ((w.job.item i).folder = item.folder ∧
      (item.folder ≠ "" → (w.job.item i).scanned = true)) ∧ AllProven (w.job.item i))
      (plantFolder i item)
      (fun b w => (((w.job.item i).folder = item.folder ∧
        (item.folder ≠ "" → (w.job.item i).scanned = true)) ∧ AllProven (w.job.item i)) ∧
        (b = true → item.folder ≠ "" → AllPlanted i w)) (fun _ => True) := by
    refine Sound.ite (fun hf => ?_) fun hf => Sound.ret fun w _ h => ⟨h, fun _ h => absurd h hf⟩
    exact (sound_plantAll (fun hpl => hf (hp hpl)) hZ i).conseq (fun _ _ => id)
      (fun _ _ _ h => ⟨h.1, fun hb _ => h.2 hb⟩) fun _ _ _ => trivial
  refine hplant.bind fun b => Sound.ite (fun _ => stop) fun hb => ?_
  let X : World D → Prop := fun w => (((w.job.item i).folder = item.folder ∧
    (item.folder ≠ "" → (w.job.item i).scanned = true)) ∧ AllProven (w.job.item i)) ∧
    (item.folder ≠ "" → AllPlanted i w)
  have hX : Stable orig plain (Quiet plain) X := hZ.and (Stable.imp _ (stable_allPlanted i))
  refine Sound.pre (X := X) ?_ fun w _ h => ⟨h.1, h.2 (by simpa using hb)⟩
  have hsettle : Moves (Quiet plain) (settleLibrary i : Mover D Unit) :=
    moves_read.bind fun _ => Moves.ite (fun _ => moves_settle i) fun _ => moves_ret
  refine ((Sound.of_moves hsettle hX).conseq (fun _ _ => id) (fun _ _ _ => id)
    fun _ _ _ => trivial).bind fun _ => ((sound_lastLook hX (fun _ _ _ h => h) i).conseq
    (fun _ _ => id) (fun _ _ _ => id) fun _ _ _ => trivial).bind fun r => ?_
  cases r with
  | none => exact stop
  | some why =>
    refine Sound.ite (fun _ => ?_) fun hwhy => ?_
    · refine Sound.pre (X := fun _ => True) ?_ fun _ _ _ => trivial
      exact (Sound.of_moves (moves_close i hne _ _) hany).bind fun _ => stop
    · have hready : Stable orig plain (Quiet plain) (ReadyItem (D := D) i) := stable_readyItem i
      have hXr := hX.and hready
      have hremoving : Moves (Quiet plain) (setItem i fun item : MoveItem D =>
          { item with state := .removing }) :=
        Moves.quiet (moves_setItem i fun a => ⟨rfl, rfl, rfl, rfl, fun h => absurd h (by simp),
          forall₂_refl FileStep.refl _⟩)
      have stay : ∀ {m : Mover D Unit}, Moves (Quiet plain) m → Sound orig plain
          (fun w => X w ∧ ReadyItem i w) m (fun _ w => X w ∧ ReadyItem i w) (fun _ => True) :=
        fun hm => (Sound.of_moves hm hXr).conseq (fun _ _ => id) (fun _ _ _ => id)
          fun _ _ _ => trivial
      refine Sound.pre (X := fun w => X w ∧ ReadyItem i w) ?_ fun w _ h =>
        ⟨h.1, h.2 (by rw [not_not.mp hwhy])⟩
      refine (stay hremoving).bind fun _ => (stay moves_save.quiet).bind fun _ =>
        Sound.bind ((sound_remove i).pre fun w _ h => ⟨h.1.1.2, h.2, ?_⟩) fun b =>
        Sound.ite (fun _ => stop) fun hb => ?_
      · rw [h.1.1.1.1]
        exact fun hne => ⟨h.1.1.1.2 hne, h.1.2 hne⟩
      · exact ((sound_closeDone i).pre fun w _ h => h (by simpa using hb)).bind fun _ => stop

end StoreMoves
