import Caravan.StoreMoves.Sound

/-!
# Bringing one file over

`Mover._bring` ends a file as proven only with the file at the target. The proof
reads the copy whole (`sound_chunks`) and the source once (`sound_hashSource`);
their digests agree only when the contents do. `Hashed` is what the reading of
the source stands for from then on: the content read is that of every stamp the
job calls proven, so that the rename which follows cannot take away what another
item has proven at the same name.
-/

namespace StoreMoves

open Crash Prog World Relation

variable {D : Type} {orig : Origin} {plain : Prop}

/-! ### Reading a root -/

theorem cur_file {s : Store} (hb : BareDirs s.bare) {p : String} {n : FileNode}
    (h : fileAt s.cur p = some n) : fileAt s.tree p = some n ∧ s.here = true := by
  unfold Store.cur at h
  split at h
  · next hh => exact ⟨h, hh⟩
  · rw [hb.fileAt_none] at h
    exact absurd h (by simp)

theorem lookup_eq_ok {w : World D} {side : Side} {p : String} {n : FileNode} :
    Io.lookup w side p = .ok n ↔ fileAt (w.store side).cur p = some n := by
  unfold Io.lookup
  split
  · next f hf => simp [hf]
  · next hf => simp [hf]

theorem map_eq_ok {A B E : Type} {x : Except E A} {g : A → B} {b : B} (h : x.map g = .ok b) :
    ∃ a, x = .ok a ∧ g a = b := by
  cases x with
  | ok a => exact ⟨a, rfl, by simpa [Except.map] using h⟩
  | error e => simp [Except.map] at h

theorem Core.lookup_source {w : World D} (h : Core orig plain w) {p : String} {n : FileNode}
    (hn : Io.lookup w .source p = .ok n) :
    fileAt w.source.tree p = some n ∧ w.source.here = true :=
  cur_file h.bareSource (lookup_eq_ok.mp hn)

theorem Core.lookup_target {w : World D} (h : Core orig plain w) {p : String} {n : FileNode}
    (hn : Io.lookup w .target p = .ok n) :
    fileAt w.target.tree p = some n ∧ w.target.here = true :=
  cur_file h.bareTarget (lookup_eq_ok.mp hn)

/-! ### What is carried while a file is brought -/

section Facts

variable (i j : ℕ) (rel : String) (Z : MoveItem D → Prop)

/-- What is known of an item is not lost as its files become proven. -/
def Lasting : Prop := ∀ a b, ItemOn a b → Z a → Z b

/-- File `j` of item `i`, of which `Z` is known, is the one called `rel`. -/
def AtFile (w : World D) : Prop := ((w.job.item i).file j).rel = rel ∧ Z (w.job.item i)

/-- Its stamp is one the source's file has had. -/
def StampSeen (w : World D) : Prop :=
  ∃ st c, ((w.job.item i).file j).stamp = some st ∧ ((rel, st), c) ∈ w.seen

/-- A stamp with which the job or the manifest calls `rel` proven, or would. -/
def Claimed (w : World D) (st : Stamp) : Prop :=
  ((w.job.item i).file j).stamp = some st ∨
    ∃ item ∈ w.job.items ++ w.saved.items, ∃ f ∈ item.files, f.rel = rel ∧
      f.state = .proven ∧ f.stamp = some st

/-- The source's file was read as `c`. -/
structure Hashed (orig : Origin) (plain : Prop) (c : Bytes) (w : World D) : Prop where
  claims : ∀ st, Claimed i j rel w st → (∃ c', ((rel, st), c') ∈ w.seen) ∧
    ∀ n, fileAt w.source.tree rel = some n → n.stamp = st → n.content = c
  origin : plain → w.touched = false → ∃ n₀, fileAt orig.source rel = some n₀ ∧ n₀.content = c

/-- Whatever stands at `p` is confirmed. -/
def SolidAt (p : String) (w : World D) : Prop :=
  ∀ n, fileAt w.target.tree p = some n → n.Solid

variable {i j rel Z}

theorem stable_atFile (hZ : Lasting Z) : Stable orig plain (Quiet plain) (AtFile i j rel Z) :=
  Stable.item (P := fun a => (a.file j).rel = rel ∧ Z a) i
    fun _ _ h hp => ⟨(h.file j).1.trans hp.1, hZ _ _ h.on hp.2⟩

/-- The name and what is known of the item outlast an assignment to the file. -/
theorem AtFile.setFile {w : World D} (hZ : Lasting Z) (h : AtFile i j rel Z w)
    {g : MoveFile D → MoveFile D} (hrel : ∀ f, (g f).rel = f.rel)
    (hst : ∀ f, f.state = .proven → (g f).state = .proven) :
    AtFile i j rel Z { w with job := w.job.setItem i fun item => item.setFile j g } := by
  have hon := itemOn_setFile w.job i j hrel hst
  exact ⟨(hon.file j).1.trans h.1, hZ _ _ hon h.2⟩

theorem stable_stampSeen : Stable orig plain (Quiet plain) (StampSeen (D := D) i j rel) :=
  Stable.ex fun st => Stable.ex fun _ => Stable.and
    (Stable.item (P := fun a => (a.file j).stamp = some st) i fun _ _ h hp =>
      (h.file j).2.2.1.trans hp) (Stable.seen _)

theorem Claimed.back {w w' : World D} (hq : Quiet plain w w') {st : Stamp}
    (h : Claimed i j rel w' st) : Claimed i j rel w st := by
  rcases h with h | ⟨b, hb, f, hf, hrel, hst, hs⟩
  · exact .inl (((hq.items.1.item i).file j).2.2.1.symm.trans h)
  · have hfrom : ∃ a ∈ w.job.items ++ w.saved.items, ItemStep a b := by
      rcases List.mem_append.mp hb with hb | hb
      · obtain ⟨a, ha, hab⟩ := hq.items.1.fromItems b hb
        exact ⟨a, List.mem_append_left _ ha, hab⟩
      · rcases hq.items.2 with hs | hs
        · exact ⟨b, List.mem_append_left _ (hs ▸ hb), ItemStep.refl b⟩
        · exact ⟨b, List.mem_append_right _ (hs ▸ hb), ItemStep.refl b⟩
    obtain ⟨a, ha, hab⟩ := hfrom
    obtain ⟨f₀, hf₀, h1, -, h3, h4⟩ := List.Forall₂.of_mem_right hab.files hf
    exact .inr ⟨a, ha, f₀, hf₀, h1.symm.trans hrel, h4.symm.trans hst, h3.symm.trans hs⟩

theorem stable_hashed (c : Bytes) :
    Stable orig plain (Quiet plain) (Hashed (D := D) i j rel orig plain c) := by
  intro w w' hq hf hc h
  have hon := hq.onward hf hc.solid
  refine ⟨fun st hst => ?_, fun hp ht => ?_⟩
  · obtain ⟨⟨c', hc'⟩, hn⟩ := h.claims st (hst.back hq)
    refine ⟨⟨c', hon.seen _ hc'⟩, fun n hs hstamp => ?_⟩
    rcases hon.source _ n hs with hs | hs
    · exact hn n hs hstamp
    · exact absurd (hstamp ▸ hc') (hs c')
  · obtain ⟨_, -, hl⟩ := hq.faults
    exact h.origin hp (hl hp ht).1

/-- A step that does not write leaves a confirmed file as it is. -/
theorem Look.fileAt_eq {w w' : World D} (h : Look plain w w') (hf : w'.faults = []) {p : String}
    (hs : SolidAt p w) : fileAt w'.target.tree p = fileAt w.target.tree p := by
  cases h with
  | around a =>
    cases a with
    | edit path node => exact congrArg (fun s => fileAt s.tree p) (edited hf).target
    | cancel written => rfl
    | lose side found => cases side <;> rfl
    | find side => cases side <;> rfl
    | tear path tail =>
      simp only [around1]
      split
      · next f hfile =>
        by_cases hp : p = path
        · subst hp
          rw [torn_solid (hs f hfile), hfile, fileAt_eq_some]
          simp
        · exact fileAt_congr (Assoc.get_put_of_ne _ _ hp)
      · rfl
    | tick seconds => rfl
  | job job h => rfl
  | save => rfl
  | fault f h => rfl

theorem stable_solidAt (p : String) :
    Stable orig plain (Look plain) (SolidAt (D := D) p) := by
  intro w w' hl hf _ h n hn
  rw [hl.fileAt_eq hf h] at hn
  exact h n hn

theorem stable_hasFile_look (p : String) (c : Bytes) :
    Stable orig plain (Look plain) (fun w : World D => HasFile w.target.tree p c) := by
  rintro w w' hl hf _ ⟨n, hn, hs, hc⟩
  have hsolid : SolidAt p w := fun n' hn' => by
    obtain rfl : n' = n := by simpa using hn'.symm.trans hn
    exact hs
  exact ⟨n, (hl.fileAt_eq hf hsolid).trans hn, hs, hc⟩

end Facts

/-! ### The proof -/

section Prove

open Mover Io

variable {i j : ℕ} {rel : String}

theorem take_append_block {A : Type} (l : List A) (a n : ℕ) :
    l.take a ++ (l.drop a).take n = l.take (a + ((l.drop a).take n).length) := by
  rw [List.take_add]
  congr 1
  rw [List.length_take, List.take_eq_take_iff]
  omega

/-- What comes back is the whole of the file. -/
theorem sound_chunks {X : World D → Prop} (hX : Stable orig plain (Look plain) X)
    (dst : String) (h : Handle) :
    Sound orig plain (fun w => X w ∧ h = ⟨dst, false⟩ ∧ ∃ c, HasFile w.target.tree dst c)
      (chunks i j h []) (fun got w => X w ∧ HasFile w.target.tree dst got) X := by
  -- what has been read so far is a beginning of the file
  let J : Bytes → World D → Prop := fun got w => X w ∧ h = ⟨dst, false⟩ ∧
    ∃ c, HasFile w.target.tree dst c ∧ got = c.take got.length
  have hJ : ∀ got, Stable orig plain (Look plain) (J got) := fun got =>
    hX.and ((Stable.const _).and (Stable.ex fun c => (stable_hasFile_look dst c).and
      (Stable.const _)))
  refine Sound.pre (X := J []) ?_ fun w _ ⟨hx, hh, c, hc⟩ => ⟨hx, hh, c, hc, by simp⟩
  refine Sound.loop hJ (fun got => ?_) []
  let K : Bytes → World D → Prop := fun block w => X w ∧ h = ⟨dst, false⟩ ∧
    ∃ c, HasFile w.target.tree dst c ∧ got = c.take got.length ∧
      block = (c.drop got.length).take CHUNK
  have hK : ∀ block, Stable orig plain (Look plain) (K block) := fun got =>
    hX.and ((Stable.const _).and (Stable.ex fun c => (stable_hasFile_look dst c).and
      (Stable.const _)))
  have hread : Sound orig plain (J got) (readBlock .target h got.length CHUNK) K X := by
    refine (Sound.reading (hJ got)).conseq (fun _ _ => id) ?_ fun _ _ hj => hj.1
    rintro block w - ⟨⟨hx, rfl, c, ⟨n, hn, hs, hc⟩, hgot⟩, hb⟩
    refine ⟨hx, rfl, c, ⟨n, hn, hs, hc⟩, hgot, ?_⟩
    have htree : fileAt ((Handle.mk dst false).treeOf (w.store .target)) dst = some n := hn
    simp only [htree, Except.ok.injEq] at hb
    rw [← hb, hc]
  refine hread.bind fun block => Sound.ite (fun hb => ?_) fun _ => ?_
  · refine Sound.ret fun w _ ⟨hx, _, c, hc, hgot, hblock⟩ => ⟨hx, ?_⟩
    have hdrop : c.drop got.length = [] := by
      have hnil : (c.drop got.length).take CHUNK = [] := hblock.symm.trans hb
      rcases List.take_eq_nil_iff.mp hnil with h0 | h0
      · exact absurd h0 (by decide)
      · exact h0
    rw [hgot, List.take_of_length_le (List.drop_eq_nil_iff.mp hdrop)]
    exact hc
  · have hdone : Moves (Look plain)
        (setFile i j fun f : MoveFile D => { f with done := got.length + block.length }) :=
      moves_setFile i j fun _ => ⟨rfl, rfl, rfl, rfl⟩
    have hstay : ∀ {m : Mover D Unit}, Moves (Look plain) m →
        Sound orig plain (K block) m (fun _ => K block) X := fun hm =>
      (Sound.of_looks hm (hK block)).conseq (fun _ _ => id) (fun _ _ _ => id) fun _ _ hk => hk.1
    refine (hstay moves_checkCancel).bind fun _ => (hstay hdone).bind fun _ =>
      Sound.ret fun w _ ⟨hx, hh, c, hc, hgot, hblock⟩ => ⟨hx, hh, c, hc, ?_⟩
    rw [List.length_append]
    conv_lhs => rw [hgot]
    rw [hblock, take_append_block, ← hblock]

/-- The digest is that of a content the source has under every stamp in question. -/
theorem sound_hashSource (sha : Bytes → D) {X : World D → Prop}
    (hX : Stable orig plain (Look plain) X)
    (hseen : ∀ w, X w → StampSeen i j rel w) :
    Sound orig plain X (hashSource sha rel)
      (fun d w => X w ∧ ∃ c, d = sha c ∧ Hashed i j rel orig plain c w) X := by
  refine (Sound.reading hX).post fun d w hc ⟨hx, hd⟩ => ⟨hx, ?_⟩
  obtain ⟨n, hn, rfl⟩ := map_eq_ok hd
  obtain ⟨hs, -⟩ := hc.lookup_source hn
  refine ⟨n.content, rfl, fun st hst => ⟨?_, fun n' hn' _ => ?_⟩, fun hp ht => ?_⟩
  · rcases hst with hst | ⟨item, hi, f, hf, rfl, hproven, hst⟩
    · obtain ⟨st', c, hst', hmem⟩ := hseen w hx
      obtain rfl : st' = st := by simpa using hst'.symm.trans hst
      exact ⟨c, hmem⟩
    · have hok : ItemOk w item :=
        (List.mem_append.mp hi).elim (hc.job item) (hc.saved item)
      obtain ⟨st', hst', hmem, -⟩ := hok.proven f hf hproven
      obtain rfl : st' = st := by simpa using hst'.symm.trans hst
      exact hmem
  · obtain rfl : n' = n := by simpa using hn'.symm.trans hs
    rfl
  · exact ⟨n, (hc.untouched hp ht).same rel n hs, rfl⟩

variable [DecidableEq D]

/-- `_prove` answers yes only for the content of the source. -/
theorem sound_prove {sha : Bytes → D} (hsha : Function.Injective sha) (bypasses : Bool)
    {X : World D → Prop} (hX : Stable orig plain (Look plain) X)
    (hseen : ∀ w, X w → StampSeen i j rel w) (dst : String) :
    Sound orig plain (fun w => X w ∧ SolidAt dst w) (prove sha bypasses i j rel dst)
      (fun b w => X w ∧ (b = true →
        ∃ c, HasFile w.target.tree dst c ∧ Hashed i j rel orig plain c w)) X := by
  have hphase : Moves (Look plain) (setFile i j fun f : MoveFile D =>
      { f with phase := .checking, done := 0 }) := moves_setFile i j fun _ => ⟨rfl, rfl, rfl, rfl⟩
  have hset : ∀ d : D, Moves (Look plain) (setFile i j fun f : MoveFile D =>
      { f with sha256 := some d, bypassed := bypasses }) :=
    fun d => moves_setFile i j fun _ => ⟨rfl, rfl, rfl, rfl⟩
  have hsolid : Stable orig plain (Look plain) (SolidAt (D := D) dst) := stable_solidAt dst
  have hXs := hX.and hsolid
  have hstay : ∀ {A : Type} {m : Mover D A}, Moves (Look plain) m →
      Sound orig plain (fun w => X w ∧ SolidAt dst w) m (fun _ w => X w ∧ SolidAt dst w) X :=
    fun hm => (Sound.of_looks hm hXs).conseq (fun _ _ => id) (fun _ _ _ => id) fun _ _ h => h.1
  have hopen : Sound orig plain (fun w => X w ∧ SolidAt dst w) (openRead .target dst)
      (fun h w => X w ∧ h = ⟨dst, false⟩ ∧ ∃ c, HasFile w.target.tree dst c) X := by
    refine (Sound.reading hXs).conseq (fun _ _ => id) (fun h w hc hr => ?_) fun _ _ h => h.1
    obtain ⟨⟨hx, hs⟩, hr⟩ := hr
    obtain ⟨n, hn, rfl⟩ := map_eq_ok hr
    obtain ⟨hf, hh⟩ := hc.lookup_target hn
    refine ⟨hx, ?_, n.content, n, hf, hs n hf, rfl⟩
    have : (w.store .target).here = true := hh
    simp [this]
  refine (hstay hphase).bind fun _ => (hstay moves_save).bind fun _ => hopen.bind fun h =>
    (sound_chunks hX dst h).bind fun got => ?_
  have hgot : Stable orig plain (Look plain) (fun w : World D => HasFile w.target.tree dst got) :=
    stable_hasFile_look dst got
  have hXg := hX.and hgot
  have hhash := (sound_hashSource sha hXg fun w h => hseen w h.1).conseq (fun _ _ => id)
    (fun _ _ _ => id) fun _ _ h => h.1
  refine hhash.bind fun d => ?_
  have hhashed : ∀ c, Stable orig plain (Look plain)
      (Hashed (D := D) i j rel orig plain c) := fun c => (stable_hashed c).look
  have hXd := hXg.and (Stable.ex fun c => (Stable.const (r := Look plain) (d = sha c)).and
    (hhashed c))
  refine ((Sound.of_looks (hset d) hXd).conseq (fun _ _ => id) (fun _ _ _ => id)
    fun _ _ h => h.1.1).bind fun _ => ?_
  refine (Sound.read (Q := fun _ w => (X w ∧ HasFile w.target.tree dst got) ∧ ∃ c, d = sha c ∧
    Hashed i j rel orig plain c w) fun _ _ h => h).bind fun f => Sound.ret ?_
  rintro w - ⟨⟨hx, hgot⟩, c, rfl, hh⟩
  refine ⟨hx, fun hb => ⟨c, ?_, hh⟩⟩
  obtain rfl : got = c := hsha (of_decide_eq_true hb).2
  exact hgot

end Prove

/-! ### The copy -/

section Copy

open Mover Io

variable {i j : ℕ}

/-- An append under the mount point of a lost store is the fault it is named for. -/
theorem openAppend_here (path : String) : Holds (fun _ => True) (fun _ => True)
    (openAppend path : Mover D Handle)
    (fun h w => h.bare = true → .copyAstray ∈ w.faults ∨ ¬ BareDirs w.target.bare)
    (fun _ _ => True) := by
  refine holds_act (fun _ _ => trivial) fun e w _ => ?_
  dsimp only
  generalize World.around e w = w
  rcases hn : Assoc.get w.target.cur path with _ | (f | t | _ | _) <;>
    rcases e.fails with _ | x <;> try trivial
  · intro hh
    simp only [Bool.not_eq_true'] at hh
    exact .inl (by simp [faultIf, hh, World.fault])
  · intro hh
    simp only [Bool.not_eq_true'] at hh
    refine .inr fun hd => ?_
    rw [Store.cur, hh] at hn
    exact absurd (hd path _ hn) (by simp)

theorem onHandle_file {w : World D} {h : Handle} {g : FileNode → FileNode} {n : FileNode}
    (hb : h.bare = false) (hn : fileAt (onHandle h g w).target.tree h.path = some n) :
    ∃ f, n = g f := by
  simp only [onHandle, Handle.treeOf, Handle.setTree, hb, Bool.false_eq_true, if_false] at hn
  split at hn
  · next f _ =>
    rw [fileAt_eq_some] at hn
    exact ⟨f, by simpa using hn.symm⟩
  · next hnone => exact absurd hn (by simp [hnone])

theorem sound_fsync {X : World D → Prop} (hX : Stable orig plain (Quiet plain) X) {h : Handle}
    (hp : IsPart h.path) :
    Sound orig plain (fun w => X w ∧ h.bare = false) (fsync h)
      (fun _ w => X w ∧ SolidAt h.path w) X := by
  have hXb := hX.and (Stable.const (h.bare = false))
  refine Sound.op hXb.look (fun w _ hw _ => ?_) (fun _ _ _ h => h.1) fun _ _ h => h.1
  refine (hw.quiets hXb (onHandle_quiet hp _)).imp fun _ _ ⟨hx, hb⟩ => ⟨hx, fun n hn => ?_⟩
  -- the file is confirmed as it stands
  obtain ⟨f, rfl⟩ := onHandle_file hb hn
  rfl

/-- A copy leaves a part file without an unconfirmed end. -/
theorem sound_copy {X : World D → Prop} (hX : Stable orig plain (Quiet plain) X)
    {src part : String} (hp : IsPart part) :
    Sound orig plain X (copy i j src part) (fun _ w => X w ∧ SolidAt part w) X := by
  have hset : ∀ {g : MoveFile D → MoveFile D}, (∀ f, FileStep f (g f)) →
      Moves (Look plain) (setFile i j g) := fun hg => moves_setFile i j hg
  have stay : ∀ {A : Type} {m : Mover D A}, Moves (Quiet plain) m →
      Sound orig plain X m (fun _ => X) X := fun hm => Sound.of_moves hm hX
  refine (stay (moves_jobFile i j)).bind fun f => (stay (moves_resumeAt f hp)).bind fun offset =>
    Sound.bind (stay (.quiet (hset fun _ => ⟨rfl, rfl, rfl, rfl⟩))) fun _ =>
    (stay moves_save.quiet).bind fun _ => (stay (moves_openRead _ _).quiet).bind fun reader => ?_
  have hopen : Sound orig plain X (openAppend part)
      (fun h w => X w ∧ h.bare = false) X := by
    refine Holds.conseq (Holds.and (stay (moves_openAppend hp)) (openAppend_here part))
      (fun _ hw => ⟨hw, trivial⟩) (fun h w hw => hw.1.imp fun hf hc hx => ⟨hx, ?_⟩)
      (fun _ _ hw => hw.1) fun _ hw => hw.1
    cases hb : h.bare with
    | false => rfl
    | true =>
      rcases hw.2 hb with hm | hd
      · exact absurd hm (by simp [hf])
      · exact absurd hc.bareTarget hd
  refine hopen.bind_of (openAppend_path part) fun h hh => ?_
  subst hh
  have hXb := hX.and (Stable.const (h.bare = false))
  refine ((Sound.of_moves (moves_copyLoop i j reader hp _) hXb).conseq (fun _ _ => id)
    (fun _ _ _ => id) fun _ _ h => h.1).bind fun _ => (sound_fsync hX hp).bind fun _ => ?_
  have hsolid : Stable orig plain (Look plain) (SolidAt (D := D) h.path) := stable_solidAt h.path
  have hXs := hX.look.and hsolid
  have look : ∀ {A : Type} {m : Mover D A}, Moves (Look plain) m → Sound orig plain
      (fun w => X w ∧ SolidAt h.path w) m (fun _ w => X w ∧ SolidAt h.path w) X := fun hm =>
    (Sound.of_looks hm hXs).conseq (fun _ _ => id) (fun _ _ _ => id) fun _ _ h => h.1
  refine Sound.bind (look (hset fun _ => ⟨rfl, rfl, rfl, rfl⟩)) fun _ =>
    (look moves_read).bind fun now =>
    Sound.bind (look (hset fun _ => ⟨rfl, rfl, rfl, rfl⟩)) fun _ =>
    (look (moves_size _ _)).bind fun _ => ?_
  exact Sound.ite (fun _ => Sound.raise fun _ _ h => h.1) fun _ => Sound.ret fun _ _ h => h

end Copy

/-! ### The rename, and the word proven -/

section Attempt

open Mover Io

variable {i j : ℕ} {rel : String}

/-- The tree after `os.replace(part, rel)`. -/
def renamed (t : Tree) (part rel : String) (n : FileNode) : Tree :=
  Assoc.put (Assoc.del t part) rel (.file n)

theorem fileAt_renamed_self (t : Tree) (part rel : String) (n : FileNode) :
    fileAt (renamed t part rel n) rel = some n := by
  rw [fileAt_eq_some, renamed, Assoc.get_put_self]

theorem fileAt_renamed {t : Tree} {part : String} (rel : String) (n : FileNode) {p : String}
    (hpart : IsPart part) (hp : ¬ IsPart p) (hne : p ≠ rel) :
    fileAt (renamed t part rel n) p = fileAt t p := by
  refine fileAt_congr ?_
  rw [renamed, Assoc.get_put_of_ne _ _ hne, Assoc.get_del_of_ne]
  rintro rfl
  exact hp hpart

/-- The rename takes nothing away: the file that may have stood there was proven
with the content the new one has. -/
theorem Core.rename {w : World D} (h : Core orig plain w) {part : String} {n : FileNode}
    (hpart : IsPart part) (hrel : ¬ IsPart rel) (hn : n.Solid)
    (hh : Hashed i j rel orig plain n.content w) :
    Core orig plain
      { w with target := { w.target with tree := renamed w.target.tree part rel n } } := by
  set w' : World D := { w with target := { w.target with tree := renamed w.target.tree part rel n } }
    with hw'
  have hself : HasFile w'.target.tree rel n.content := ⟨n, fileAt_renamed_self _ _ _ _, hn, rfl⟩
  have hother : ∀ p c, ¬ IsPart p → p ≠ rel → HasFile w.target.tree p c →
      HasFile w'.target.tree p c := by
    rintro p c hp hne ⟨m, hm, hs, hc⟩
    exact ⟨m, (fileAt_renamed rel n hpart hp hne).trans hm, hs, hc⟩
  have hitem : ∀ item ∈ w.job.items ++ w.saved.items, ItemOk w item → ItemOk w' item := by
    intro item hi hok
    refine ⟨hok.final, hok.linkFinal, fun f hf hst => ?_, hok.links, hok.inFolder⟩
    obtain ⟨st, hstamp, hseen, hsec⟩ := hok.proven f hf hst
    refine ⟨st, hstamp, hseen, fun m hm hms => ?_⟩
    by_cases hne : f.rel = rel
    · subst hne
      rw [(hh.claims st (.inr ⟨item, hi, f, hf, rfl, hst, hstamp⟩)).2 m hm hms]
      exact hself
    · exact hother _ _ (hok.final f hf) hne (hsec m hm hms)
  have hheld : plain → w.touched = false → ∀ p n₀, fileAt orig.source p = some n₀ → Held w p n₀ →
      Held w' p n₀ := by
    rintro hp ht p n₀ h₀ ⟨hpp, hf⟩
    refine ⟨hpp, ?_⟩
    by_cases hne : p = rel
    · subst hne
      obtain ⟨n₁, h₁, hc⟩ := hh.origin hp ht
      obtain rfl : n₀ = n₁ := by simpa using h₀.symm.trans h₁
      exact hc ▸ hself
    · exact hother _ _ hpp hne hf
  refine ⟨h.bareSource, h.bareTarget, h.distinct, ?_, h.stamped, h.single,
    fun item hi => hitem item (List.mem_append_left _ hi) (h.job item hi),
    fun item hi => hitem item (List.mem_append_right _ hi) (h.saved item hi),
    fun hp ht => ?_, fun hp ht item hi hst f hf n₀ h₀ => ?_,
    fun hp ht item hi hst f hf n₀ h₀ => ?_⟩
  · intro p m hp hm
    by_cases hne : p = rel
    · subst hne
      obtain rfl : n = m := by
        simpa using (fileAt_renamed_self w.target.tree part p n).symm.trans hm
      exact hn
    · exact h.solid p m hp ((fileAt_renamed rel n hpart hp hne).symm.trans hm)
  · have hu := h.untouched hp ht
    exact ⟨hu.same, hu.seen, fun p n₀ h₀ => (hu.kept p n₀ h₀).imp id (hheld hp ht p n₀ h₀)⟩
  · exact hheld hp ht _ _ h₀ (h.jobDone hp ht item hi hst f hf n₀ h₀)
  · exact hheld hp ht _ _ h₀ (h.savedDone hp ht item hi hst f hf n₀ h₀)

/-- A change of the record that each item's claims allow. -/
theorem Core.setJob {w : World D} (h : Core orig plain w) {job : MoveJob D}
    (hok : ∀ item ∈ job.items, ItemOk w item)
    (hdone : plain → w.touched = false → ∀ item ∈ job.items, DoneHeld orig w item) :
    Core orig plain { w with job := job } := by
  have hon : Onward w { w with job := job } :=
    ⟨fun _ h => h, fun _ h => h, fun _ _ => .inl, fun _ _ => .inl, fun _ _ _ h => h⟩
  refine ⟨h.bareSource, h.bareTarget, h.distinct, h.solid, h.stamped, h.single,
    fun item hi => (hok item hi).onward hon, fun item hi => (h.saved item hi).onward hon,
    fun hp ht => ?_, hdone, h.savedDone⟩
  have hu := h.untouched hp ht
  exact ⟨hu.same, hu.seen, hu.kept⟩

theorem mem_modify {A : Type} {l : List A} {k : ℕ} {g : A → A} {x : A}
    (h : x ∈ l.modify k g) : x ∈ l ∨ ∃ y, l[k]? = some y ∧ x = g y := by
  induction l generalizing k with
  | nil => simp at h
  | cons y l ih =>
    cases k with
    | zero =>
      rcases List.mem_cons.mp h with rfl | h
      · exact .inr ⟨y, rfl, rfl⟩
      · exact .inl (List.mem_cons_of_mem _ h)
    | succ k =>
      rcases List.mem_cons.mp h with rfl | h
      · exact .inl List.mem_cons_self
      · exact (ih h).imp (List.mem_cons_of_mem _) id

/-- One file of one item changes: only what it says of a proof is to be shown. -/
theorem Core.setFile {w : World D} (h : Core orig plain w) (i j : ℕ)
    {g : MoveFile D → MoveFile D} (hrel : ∀ f, (g f).rel = f.rel)
    (hsec : j < (w.job.item i).files.length → (g ((w.job.item i).file j)).state = .proven →
      Secured w (g ((w.job.item i).file j))) :
    Core orig plain { w with job := w.job.setItem i fun item => item.setFile j g } := by
  have hfiles : ∀ item ∈ (w.job.setItem i fun item => item.setFile j g).items,
      ∃ a ∈ w.job.items, item.folder = a.folder ∧ item.links = a.links ∧
        item.scanned = a.scanned ∧ item.state = a.state ∧
        ∀ f ∈ item.files, ∃ f₀ ∈ a.files, f.rel = f₀.rel ∧
          (f = f₀ ∨ (f.state = .proven → Secured w f)) := by
    intro item hi
    rcases mem_modify hi with hi | ⟨a, ha, rfl⟩
    · exact ⟨item, hi, rfl, rfl, rfl, rfl, fun f hf => ⟨f, hf, rfl, .inl rfl⟩⟩
    · refine ⟨a, List.mem_of_getElem? ha, rfl, rfl, rfl, rfl, fun f hf => ?_⟩
      have hitem : w.job.item i = a := by
        simp [MoveJob.item, List.getD_eq_getElem?_getD, ha]
      rcases mem_modify hf with hf | ⟨f₀, hf₀, rfl⟩
      · exact ⟨f, hf, rfl, .inl rfl⟩
      · refine ⟨f₀, List.mem_of_getElem? hf₀, hrel f₀, .inr fun hst => ?_⟩
        have hfile : (w.job.item i).file j = f₀ := by
          rw [hitem]
          simp [MoveItem.file, List.getD_eq_getElem?_getD, hf₀]
        rw [← hfile] at hst ⊢
        exact hsec (hitem ▸ (List.getElem?_eq_some_iff.mp hf₀).1) hst
  refine h.setJob (fun item hi => ?_) fun hp ht item hi hst f hf n₀ h₀ => ?_
  · obtain ⟨a, ha, hfo, hli, hsc, -, hf⟩ := hfiles item hi
    have hok := h.job a ha
    refine ⟨fun f hm => ?_, hli ▸ hok.linkFinal, fun f hm hst => ?_,
      fun hne hs => ?_, fun hne f hm => ?_⟩
    · obtain ⟨f₀, hm₀, hr, -⟩ := hf f hm
      exact hr ▸ hok.final f₀ hm₀
    · obtain ⟨f₀, hm₀, -, rfl | hs⟩ := hf f hm
      · exact hok.proven f hm₀ hst
      · exact hs hst
    · rw [hfo] at hne ⊢
      rw [hli]
      exact hok.links hne (hsc ▸ hs)
    · obtain ⟨f₀, hm₀, hr, -⟩ := hf f hm
      rw [hfo] at hne ⊢
      exact hr ▸ hok.inFolder hne f₀ hm₀
  · obtain ⟨a, ha, -, -, -, hs, hf'⟩ := hfiles item hi
    obtain ⟨f₀, hm₀, hr, -⟩ := hf' f hf
    rw [hr] at h₀ ⊢
    exact h.jobDone hp ht a ha (hs ▸ hst) f₀ hm₀ n₀ h₀

theorem map_modify_eq {A B : Type} {f : A → B} {g : A → A} (hg : ∀ x, f (g x) = f x)
    (l : List A) (k : ℕ) : (l.modify k g).map f = l.map f := by
  induction l generalizing k with
  | nil => simp
  | cons x l ih =>
    cases k with
    | zero => simp [hg]
    | succ k => simpa using ih k

theorem Plain.setItem {w : World D} (h : Plain orig w) (i : ℕ) {g : MoveItem D → MoveItem D}
    (hg : ∀ a, (g a).folder = a.folder ∧ (g a).rels = a.rels) :
    Plain orig { w with job := w.job.setItem i g } := by
  refine ⟨⟨fun item hi => ?_, ?_⟩, h.2⟩
  · rcases mem_modify hi with hi | ⟨a, ha, rfl⟩
    · exact h.1.folder item hi
    · exact (hg a).1.trans (h.1.folder a (List.mem_of_getElem? ha))
  · exact (map_modify_eq (fun a => (hg a).2) _ _).trans h.1.rels

theorem Plain.setFile {w : World D} (h : Plain orig w) (i j : ℕ) {g : MoveFile D → MoveFile D}
    (hg : ∀ f, (g f).rel = f.rel) :
    Plain orig { w with job := w.job.setItem i fun item => item.setFile j g } :=
  h.setItem i fun _ => ⟨rfl, map_modify_eq hg _ _⟩

/-- File `j` of item `i`, where there is one, is proven. -/
def ProvenAt (i j : ℕ) (w : World D) : Prop :=
  j < (w.job.item i).files.length → ((w.job.item i).file j).state = .proven

theorem stable_provenAt : Stable orig plain (Quiet plain) (ProvenAt (D := D) i j) :=
  Stable.item (P := fun a => j < a.files.length → (a.file j).state = .proven) i
    fun _ _ h hp hlt => (h.file j).2.2.2.trans (hp (h.files.length_eq ▸ hlt))

/-- The target has `c` under the final name `p`. -/
def Final (p : String) (c : Bytes) (w : World D) : Prop :=
  ¬ IsPart p ∧ HasFile w.target.tree p c

theorem stable_final (p : String) (c : Bytes) :
    Stable orig plain (Quiet plain) (Final (D := D) p c) :=
  fun w w' hr hf hc h => ⟨h.1, Stable.hasFile h.1 c w w' hr hf hc h.2⟩

/-- The file's name is a final one. -/
theorem Core.atFile {Z : MoveItem D → Prop} {w : World D} (h : Core orig plain w) (hat : AtFile i j rel Z w) :
    ¬ IsPart rel := by
  rw [← hat.1]
  rcases Nat.lt_or_ge j (w.job.item i).files.length with hj | hj
  · exact (h.job _ (MoveJob.item_mem (MoveJob.lt_of_file hj))).final _ (MoveItem.file_mem hj)
  · rw [MoveItem.file_of_le hj]
    exact (by decide : ¬ IsPart "")

/-- What is known of the file when its copy stands at the target. -/
def Brought (i j : ℕ) (rel : String) (Z : MoveItem D → Prop) (orig : Origin) (plain : Prop)
    (w : World D) : Prop :=
  AtFile i j rel Z w ∧ StampSeen i j rel w ∧
    ∃ c, Final rel c w ∧ Hashed i j rel orig plain c w

variable {Z : MoveItem D → Prop} (hZ : Lasting Z)

section

include hZ

theorem stable_brought : Stable orig plain (Quiet plain) (Brought i j rel Z orig plain) :=
  (stable_atFile hZ).and (stable_stampSeen.and
    (Stable.ex fun c => (stable_final rel c).and (stable_hashed c)))

theorem sound_proven : Sound orig plain (Brought i j rel Z orig plain) (proven i j)
    (fun _ w => AtFile i j rel Z w ∧ ProvenAt i j w) (AtFile i j rel Z) := by
  have hX : Stable orig plain (Quiet plain)
      (fun w : World D => AtFile i j rel Z w ∧ ProvenAt i j w) :=
    (stable_atFile hZ).and stable_provenAt
  have hset : Sound orig plain (Brought i j rel Z orig plain)
      (setFile i j fun f => { f with state := .proven, phase := .proven })
      (fun _ w => AtFile i j rel Z w ∧ ProvenAt i j w) (AtFile i j rel Z) := by
    refine holds_assign fun w hw => hw.write (fun _ hp => hp.setFile i j fun _ => rfl) rfl rfl rfl ?_
    rintro - hc ⟨hat, ⟨st, c', hst, hseen⟩, c, ⟨-, hfin⟩, hh⟩
    refine ⟨hc.setFile i j (fun _ => rfl) fun _ _ => ⟨st, hst, ?_, ?_⟩, ?_, fun hlt => ?_⟩
    · exact ⟨c', by rw [hat.1]; exact hseen⟩
    · change ∀ n, fileAt w.source.tree ((w.job.item i).file j).rel = some n → _ →
        HasFile w.target.tree ((w.job.item i).file j).rel n.content
      rw [hat.1]
      intro n hn hns
      rw [(hh.claims st (.inl hst)).2 n hn hns]
      exact hfin
    · exact hat.setFile hZ (fun _ => rfl) fun _ _ => rfl
    · rw [MoveJob.length_setFile] at hlt
      exact congrArg MoveFile.state (MoveJob.file_setFile _ i j hlt)
  refine hset.bind fun _ => ((Sound.of_moves moves_save.quiet hX).conseq (fun _ _ => id)
    (fun _ _ _ => id) fun _ _ h => h.1).bind fun _ => Sound.ret fun _ _ h => h

theorem sound_takeStamp : Sound orig plain (AtFile i j rel Z) (takeStamp i j rel)
    (fun _ => AtFile i j rel Z) (AtFile i j rel Z) := by
  have hX : Stable orig plain (Quiet plain) (fun w : World D =>
      AtFile i j rel Z w ∧ ((w.job.item i).file j).stamp = none) :=
    (stable_atFile hZ).and (Stable.item (P := fun a => (a.file j).stamp = none) i
      fun _ _ h hp => (h.file j).2.2.1.trans hp)
  have hset : ∀ st : Stamp, Sound orig plain (fun w : World D =>
      AtFile i j rel Z w ∧ ((w.job.item i).file j).stamp = none)
      (setFile i j fun f => { f with stamp := some st }) (fun _ => AtFile i j rel Z)
      (AtFile i j rel Z) := by
    intro st
    refine holds_assign fun w hw => hw.write (fun _ hp => hp.setFile i j fun _ => rfl) rfl rfl rfl ?_
    rintro - hc ⟨hat, hnone⟩
    refine ⟨hc.setFile i j (fun _ => rfl) fun hlt hst => ?_, ?_⟩
    · -- a proven file has a stamp
      have hmem := MoveJob.item_mem (MoveJob.lt_of_file hlt)
      obtain ⟨st', hst', -⟩ := (hc.job _ hmem).proven _ (MoveItem.file_mem hlt) hst
      exact absurd hst' (by simp [hnone])
    · exact hat.setFile hZ (fun _ => rfl) fun _ h => h
  refine Sound.bind (Q := fun f w => AtFile i j rel Z w ∧ f.stamp = ((w.job.item i).file j).stamp)
    (Sound.read fun w _ h => ⟨h, rfl⟩) fun f => Sound.ite (fun hnone => ?_) fun _ =>
    Sound.ret fun _ _ h => h.1
  refine Sound.pre (X := fun w => AtFile i j rel Z w ∧ ((w.job.item i).file j).stamp = none) ?_
    fun w _ h => ⟨h.1, h.2 ▸ hnone⟩
  refine ((Sound.of_moves (moves_stamp _ _).quiet hX).conseq (fun _ _ => id) (fun _ _ _ => id)
    fun _ _ h => h.1).bind fun st => (hset st).bind fun _ => ?_
  exact Sound.of_moves moves_save.quiet (stable_atFile hZ)

/-- The stamp the source's file has now is on record. -/
theorem sound_stampSource : Sound orig plain (AtFile i j rel Z) (stamp .source rel)
    (fun st w => AtFile i j rel Z w ∧ ∃ c, ((rel, st), c) ∈ w.seen) (AtFile i j rel Z) := by
  refine (Sound.reading (stable_atFile hZ).look).post fun st w hc ⟨hat, hst⟩ => ⟨hat, ?_⟩
  obtain ⟨n, hn, rfl⟩ := map_eq_ok hst
  exact ⟨_, hc.stamped rel n (hc.lookup_source hn).1⟩

/-- What an attempt that returns has established. -/
def Attempted (i j : ℕ) (rel : String) (Z : MoveItem D → Prop) (r : Option Bool) (w : World D) : Prop :=
  AtFile i j rel Z w ∧ (r = some true → ProvenAt i j w)

omit hZ in
theorem sound_closeSome {X : World D → Prop} (hX : Stable orig plain (Quiet plain) X)
    (hat : ∀ w, X w → AtFile i j rel Z w) {state : ItemState} (hs : state ≠ .done)
    (note detail : String) : Sound orig plain X (do return some (← close i state note detail))
      (Attempted i j rel Z) (AtFile i j rel Z) := by
  refine (((Sound.of_moves (moves_close i hs note detail) hX).and
    (returns_close i state note detail)).conseq (fun _ _ => id) (fun _ _ _ => id)
    fun w _ => hat w).bind fun b => Sound.ret fun w _ ⟨hx, hb⟩ => ⟨hat w hx, ?_⟩
  simp [hb]

/-- `os.replace(part, final)` of a proven part file. -/
theorem sound_replace {part : String} (hpart : IsPart part) :
    Sound orig plain (fun w : World D => AtFile i j rel Z w ∧ StampSeen i j rel w ∧
        ∃ c, HasFile w.target.tree part c ∧ Hashed i j rel orig plain c w)
      (replace part rel) (fun _ => Brought i j rel Z orig plain) (AtFile i j rel Z) := by
  have hX : Stable orig plain (Look plain) (fun w : World D => AtFile i j rel Z w ∧
      StampSeen i j rel w ∧ ∃ c, HasFile w.target.tree part c ∧
        Hashed i j rel orig plain c w) :=
    (stable_atFile hZ).look.and (stable_stampSeen.look.and (Stable.ex fun c =>
      (stable_hasFile_look part c).and (stable_hashed c).look))
  refine Sound.op hX (fun w _ hw hr => ?_) (fun _ _ _ h => h.1) fun _ _ h => h.1
  obtain ⟨n, hn, -⟩ := map_eq_ok hr
  have hcur := lookup_eq_ok.mp hn
  rw [show fileAt w.target.cur part = some n from hcur]
  dsimp only
  refine hw.write (fun _ => id) rfl rfl rfl ?_
  rintro - hc ⟨hat, hst, c, ⟨m, hm, hsolid, rfl⟩, hh⟩
  obtain ⟨htree, hhere⟩ := cur_file hc.bareTarget hcur
  obtain rfl : n = m := by simpa using htree.symm.trans hm
  have hrel := hc.atFile hat
  have heq : w.setStore .target (w.target.setCur
        (Assoc.put (Assoc.del w.target.cur part) rel (.file n))) =
      { w with target := { w.target with tree := renamed w.target.tree part rel n } } := by
    simp only [World.setStore, Store.setCur, Store.cur, hhere, if_true, renamed]
  have hcore := hc.rename hpart hrel hsolid hh
  rw [heq]
  exact ⟨hcore, hat, hst, n.content, ⟨hrel, n, fileAt_renamed_self _ _ _ _, hsolid, rfl⟩,
    ⟨hh.claims, hh.origin⟩⟩

variable [DecidableEq D]

theorem sound_attempt {sha : Bytes → D} (hsha : Function.Injective sha) (bypasses : Bool) :
    Sound orig plain (AtFile i j rel Z) (attempt sha bypasses i j rel rel)
      (Attempted i j rel Z) (AtFile i j rel Z) := by
  have hpart : IsPart (rel ++ PART_SUFFIX) := isPart_append rel
  have hne : ItemState.skipped ≠ .done := by decide
  have hat : Stable orig plain (Quiet plain) (AtFile i j rel Z) := stable_atFile hZ
  have hstamp : Stable orig plain (Quiet plain) (StampSeen (D := D) i j rel) := stable_stampSeen
  have hX := hat.and hstamp
  have stay : ∀ {A : Type} {m : Mover D A}, Moves (Quiet plain) m →
      Sound orig plain (AtFile i j rel Z) m (fun _ => AtFile i j rel Z) (AtFile i j rel Z) :=
    fun hm => Sound.of_moves hm hat
  have stay' : ∀ {A : Type} {m : Mover D A}, Moves (Quiet plain) m →
      Sound orig plain (fun w => AtFile i j rel Z w ∧ StampSeen i j rel w) m
        (fun _ w => AtFile i j rel Z w ∧ StampSeen i j rel w) (AtFile i j rel Z) :=
    fun hm => (Sound.of_moves hm hX).conseq (fun _ _ => id) (fun _ _ _ => id) fun _ _ h => h.1
  have hproven : Sound orig plain (Brought i j rel Z orig plain) (do
      return some (← proven i j)) (Attempted i j rel Z) (AtFile i j rel Z) :=
    (sound_proven hZ).bind fun _ => Sound.ret fun _ _ h => ⟨h.1, fun _ => h.2⟩
  have hprove := fun dst => (sound_prove hsha bypasses hX.look (fun _ h => h.2) dst).conseq
    (fun _ _ => id) (fun _ _ _ => id) fun _ _ h => h.1
  unfold attempt
  refine (stay (moves_exists _ _).quiet).bind fun ex => Sound.ite
    (fun _ => sound_closeSome hat (fun _ h => h) hne _ _) fun _ => ?_
  refine (sound_takeStamp hZ).bind fun _ => (sound_stampSource hZ).bind fun st => ?_
  refine Sound.bind (Q := fun f w => (AtFile i j rel Z w ∧ ∃ c, ((rel, st), c) ∈ w.seen) ∧
    f.stamp = ((w.job.item i).file j).stamp) (Sound.read fun w _ h => ⟨h, rfl⟩) fun f => ?_
  refine Sound.ite (fun _ => (sound_closeSome hat (fun _ h => h) hne _ _).pre
    fun _ _ h => h.1.1) fun hst => ?_
  refine Sound.pre (X := fun w => AtFile i j rel Z w ∧ StampSeen i j rel w) ?_
    fun w _ ⟨⟨h, c, hc⟩, hf⟩ => ⟨h, st, c, hf ▸ (not_not.mp hst).symm, hc⟩
  refine (stay' moves_storesHere.quiet).bind fun _ => (stay' (moves_exists _ _).quiet).bind
    fun there => Sound.ite (fun _ => ?_) fun _ => ?_
  · -- something stands under the final name: it is proven or refused
    refine ((hprove rel).pre fun w hc h => ⟨h, fun n hn => ?_⟩).bind fun b =>
      Sound.ite (fun hb => ?_) fun _ => ?_
    · exact hc.solid rel n (hc.atFile h.1) hn
    · refine hproven.pre fun w hc ⟨⟨h, hs⟩, hp⟩ => ?_
      obtain ⟨c, hf, hh⟩ := hp hb
      exact ⟨h, hs, c, ⟨hc.atFile h, hf⟩, hh⟩
    · exact (sound_closeSome hat (fun _ h => h) hne _ _).pre fun _ _ h => h.1.1
  · refine (stay' (moves_makedirs _)).bind fun _ => Sound.bind ((sound_copy hX hpart).conseq
      (fun _ _ => id) (fun _ _ _ => id) fun _ _ h => h.1) fun _ =>
      (hprove (rel ++ PART_SUFFIX)).bind fun b => Sound.ite (fun hb => ?_) fun _ => ?_
    · refine Sound.pre (X := fun w => AtFile i j rel Z w ∧ StampSeen i j rel w ∧ ∃ c,
        HasFile w.target.tree (rel ++ PART_SUFFIX) c ∧ Hashed i j rel orig plain c w) ?_
        fun w _ ⟨⟨h, hs⟩, hp⟩ => ⟨h, hs, hp hb⟩
      refine (sound_replace hZ hpart).bind fun _ => Sound.bind ?_ fun _ => hproven
      exact (Sound.of_moves (moves_keepAge rel i j) (stable_brought hZ)).conseq (fun _ _ => id)
        (fun _ _ _ => id) fun _ _ h => h.1
    · have hagain : Moves (Quiet plain) (setFile i j fun f : MoveFile D =>
          { f with synced := 0, attempts := f.attempts + 1 }) :=
        Moves.quiet (moves_setFile i j fun _ => ⟨rfl, rfl, rfl, rfl⟩)
      refine Sound.pre (X := AtFile i j rel Z) ?_ fun _ _ h => h.1.1
      refine (stay (moves_discard rel)).bind fun _ => (stay hagain).bind fun _ =>
        (stay (moves_jobFile i j)).bind fun f => Sound.ite (fun _ => ?_) fun _ => ?_
      · exact sound_closeSome hat (fun _ h => h) hne _ _
      · exact Sound.ret fun _ _ h => ⟨h, by simp⟩

/-- `_bring` ends with a file proven, or with no word on it. -/
theorem sound_bring {sha : Bytes → D} (hsha : Function.Injective sha) (bypasses : Bool) :
    Sound orig plain (fun w => Z (w.job.item i)) (bring sha bypasses i j)
      (fun b w => Z (w.job.item i) ∧ (b = true → ProvenAt i j w)) (fun _ => True) := by
  refine Sound.bind (Q := fun f w => AtFile i j f.rel Z w) (Sound.read fun w _ h => ⟨rfl, h⟩) fun f => ?_
  have hat : Stable orig plain (Quiet plain) (AtFile i j f.rel Z) := stable_atFile hZ
  refine Sound.loop (J := fun _ => AtFile i j f.rel Z) (fun _ => hat.look) (fun _ => ?_) ()
  have stay : ∀ {A : Type} {m : Mover D A}, Moves (Quiet plain) m → Sound orig plain
      (AtFile i j f.rel Z) m (fun _ => AtFile i j f.rel Z) (fun _ => True) := fun hm =>
    (Sound.of_moves hm hat).conseq (fun _ _ => id) (fun _ _ _ => id) fun _ _ _ => trivial
  refine (stay moves_checkCancel).bind fun _ => Sound.bind (Q := Attempted i j f.rel Z) ?_ fun r => ?_
  · refine Sound.exceptOs (sound_attempt hZ hsha bypasses) (fun x => ?_) fun _ _ _ => trivial
    refine (stay (moves_trouble i x)).bind fun again => Sound.ret fun w _ h => ⟨h, ?_⟩
    cases again <;> simp
  · cases r with
    | none => exact Sound.ret fun _ _ h => h.1
    | some b => exact Sound.ret fun _ _ h => ⟨h.1.2, fun hb => h.2 (by rw [hb])⟩

end

end Attempt

end StoreMoves
