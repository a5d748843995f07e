import Caravan.StoreMoves.Steps

/-!
# The quiet operations and methods

What each operation of `LocalIo` and each method of `Mover` may change, for those
that move by quiet steps only. Of the methods, these are the ones that wait,
look, copy, prove and close; the ones left out are the five places where the
invariant itself is at stake (`_bring` where it renames, `_scan`, `_plant`,
`_remove`, and the last line of `_item`).
-/

namespace Crash

open StoreMoves

/-- To look is to be quiet. -/
theorem Moves.quiet {D : Type} {plain : Prop} {A : Type} {m : Mover D A}
    (h : Moves (Look plain) m) : Moves (Quiet plain) m :=
  h.mono fun _ _ => .look

end Crash

namespace StoreMoves

open Crash Prog World Relation

variable {D : Type} {plain : Prop} {A : Type}

theorem Look.quiet {w w' : World D} (h : Look plain w w') : Quiet plain w w' := .look h

theorem around_look (e : Event) (w : World D) : ReflTransGen (Look plain) w (around e w) := by
  unfold World.around
  induction e.around generalizing w with
  | nil => exact .refl
  | cons a l ih => exact .head (.around w a) (ih _)

theorem around_quiet (e : Event) (w : World D) : ReflTransGen (Quiet plain) w (around e w) :=
  ReflTransGen.mono (fun _ _ => .look) _ _ (around_look e w)

theorem BareDirs.put {t : Tree} (ht : BareDirs t) (p : String) : BareDirs (Assoc.put t p .dir) := by
  intro q n hn
  rw [Assoc.get_put] at hn
  split at hn
  · exact (Option.some.inj hn).symm
  · exact ht q n hn

theorem BareDirs.del {t : Tree} (ht : BareDirs t) (p : String) : BareDirs (Assoc.del t p) := by
  intro q n hn
  rw [Assoc.get_del] at hn
  split at hn
  · simp at hn
  · exact ht q n hn

theorem BareDirs.fileAt_none {t : Tree} (ht : BareDirs t) (p : String) : fileAt t p = none := by
  cases h : fileAt t p with
  | none => rfl
  | some n => exact absurd (ht p _ (fileAt_eq_some.mp h)) (by simp)

theorem faultIf_look {w : World D} {c : Prop} [Decidable c] (f : Fault) (h : c → ¬ plain) :
    ReflTransGen (Look plain) w (w.faultIf c f) := by
  unfold faultIf
  split
  · next hc => exact .single (.fault _ f (h hc))
  · exact .refl

namespace Io

theorem moves_read_op {res : World D → Except OsError A} :
    Moves (Look plain) (op res id) := by
  refine moves_act fun e w => ?_
  dsimp only
  split <;> first | exact around_look e w | (split <;> exact around_look e w)

/-- An operation whose effect is quiet where it has one. -/
theorem moves_op {res : World D → Except OsError A} {eff : World D → World D}
    (h : ∀ w a, res w = .ok a → ReflTransGen (Quiet plain) w (eff w)) :
    Moves (Quiet plain) (op res eff) := by
  refine moves_act fun e w => ?_
  dsimp only
  split
  · next hr =>
    split
    · exact (around_quiet e w).trans (h _ _ hr)
    · exact around_quiet e w
  · exact around_quiet e w
  · next hr => exact (around_quiet e w).trans (h _ _ hr)
  · exact around_quiet e w

/-! ### Reading -/

theorem moves_exists (side : Side) (path : String) :
    Moves (Look plain) (exists_ side path : Mover D Bool) :=
  moves_act fun e w => around_look e w

theorem moves_isLink (side : Side) (path : String) :
    Moves (Look plain) (isLink side path : Mover D Bool) :=
  moves_act fun e w => around_look e w

theorem moves_size (side : Side) (path : String) :
    Moves (Look plain) (size side path : Mover D ℕ) := moves_read_op

theorem moves_stamp (side : Side) (path : String) :
    Moves (Look plain) (stamp side path : Mover D Stamp) := moves_read_op

theorem moves_mark (side : Side) : Moves (Look plain) (mark side : Mover D String) :=
  moves_act fun e w => around_look e w

theorem moves_openRead (side : Side) (path : String) :
    Moves (Look plain) (openRead side path : Mover D Handle) := moves_read_op

theorem moves_readBlock (side : Side) (h : Handle) (offset n : ℕ) :
    Moves (Look plain) (readBlock side h offset n : Mover D Bytes) := moves_read_op

theorem moves_ask : Moves (Look plain) (ask : Mover D Bool) :=
  moves_act fun e w => around_look e w

theorem moves_sleep (seconds : ℕ) : Moves (Look plain) (sleep seconds : Mover D Unit) :=
  moves_act fun e w => (around_look e w).tail (.around _ (.tick seconds))

theorem moves_save : Moves (Look plain) (save : Mover D Unit) := by
  refine moves_act fun e w => ?_
  dsimp only
  split
  · split
    · exact (around_look e w).tail (.save _)
    · exact around_look e w
  · exact around_look e w
  · exact (around_look e w).tail (.save _)
  · exact around_look e w

/-! ### Writing at the target, but never a final name -/

/-- Another tree at the root the target shows now. -/
theorem target_setCur {w : World D} {t : Tree} (h : TreeStep w.target.cur t)
    (hb : BareDirs w.target.cur → BareDirs t) :
    ReflTransGen (Quiet plain) w (w.setStore .target (w.target.setCur t)) := by
  unfold Store.cur at h hb
  unfold Store.setCur
  split
  · next hh =>
    rw [if_pos hh] at h
    exact .single (.target w t h)
  · next hh =>
    rw [if_neg hh] at hb
    exact .single (.bare w t hb)

theorem mapFile_quiet {w : World D} {path : String} {g : FileNode → FileNode}
    (h : IsPart path ∨ ∀ f, (g f).content = f.content ∧ (g f).synced = f.synced) :
    ReflTransGen (Quiet plain) w (mapFile .target path g w) := by
  unfold mapFile
  split
  · next f hf =>
    refine target_setCur ?_ fun hb => ?_
    · rcases h with hp | hg
      · exact TreeStep.put_part hp _
      · exact TreeStep.put_file hf (hg f).1 (hg f).2
    · rw [World.store, hb.fileAt_none] at hf
      exact absurd hf (by simp)
  · exact .refl

theorem moves_truncate {path : String} (hp : IsPart path) (n : ℕ) :
    Moves (Quiet plain) (truncate path n : Mover D Unit) :=
  moves_op fun _ _ _ => mapFile_quiet (.inl hp)

theorem moves_setMtime (path : String) (t : ℕ) :
    Moves (Quiet plain) (setMtime path t : Mover D Unit) :=
  moves_op fun _ _ _ => mapFile_quiet (.inr fun _ => ⟨rfl, rfl⟩)

theorem moves_unlink_part {path : String} (hp : IsPart path) :
    Moves (Quiet plain) (unlink .target path : Mover D Unit) :=
  moves_op fun _ _ _ => target_setCur (TreeStep.del_part hp) fun hb => hb.del path

theorem moves_makedirs (path : String) : Moves (Quiet plain) (makedirs path : Mover D Unit) := by
  refine moves_op fun w _ _ => ?_
  split
  · exact .refl
  · next hn =>
    split
    · exact .refl
    · exact target_setCur (TreeStep.put_new hn (by simp)) fun hb => hb.put path

theorem moves_openAppend {path : String} (hp : IsPart path) :
    Moves (Quiet plain) (openAppend path : Mover D Handle) := by
  refine moves_op fun w _ _ => ?_
  split
  · unfold faultIf
    split
    · next hh =>
      -- the copy is begun under the mount point of a lost store
      exact .single (.astray w _ _ fun _ => rfl)
    · next hh =>
      simp only [Bool.not_eq_false] at hh
      unfold Store.setCur Store.cur
      rw [if_pos hh, if_pos hh]
      exact .single (.target w _ (TreeStep.put_part hp _))
  · exact .refl

theorem openAppend_path (path : String) : Holds (fun _ => True) (fun _ => True)
    (openAppend path : Mover D Handle) (fun h _ => h.path = path) (fun _ _ => True) := by
  refine holds_act (fun _ _ => trivial) fun e w _ => ?_
  dsimp only
  rcases hn : Assoc.get (around e w).target.cur path with _ | (f | t | _ | _) <;>
    cases e.fails <;> simp

theorem onHandle_quiet {w : World D} {h : Handle} (hp : IsPart h.path)
    (g : FileNode → FileNode) : ReflTransGen (Quiet plain) w (onHandle h g w) := by
  unfold onHandle
  split
  · next f hf =>
    unfold Handle.treeOf at hf
    unfold Handle.setTree Handle.treeOf
    split
    · next hb =>
      rw [if_pos hb] at hf
      refine .single (.bare w _ fun hd => ?_)
      rw [hd.fileAt_none] at hf
      exact absurd hf (by simp)
    · exact .single (.target w _ (TreeStep.put_part hp _))
  · exact .refl

theorem moves_write {h : Handle} (hp : IsPart h.path) (block : Bytes) :
    Moves (Quiet plain) (write h block : Mover D Unit) := by
  refine moves_act fun e w => ?_
  dsimp only
  split <;> exact (around_quiet e w).trans (onHandle_quiet hp _)

theorem moves_fsync {h : Handle} (hp : IsPart h.path) :
    Moves (Quiet plain) (fsync h : Mover D Unit) :=
  moves_op fun _ _ _ => onHandle_quiet hp _

/-! ### The source's empty directories -/

theorem moves_rmdir (path : String) : Moves (Quiet plain) (rmdir path : Mover D Unit) := by
  refine moves_op fun w _ hr => ?_
  have hdir : Assoc.get w.source.cur path = some .dir := by
    by_contra hne
    rw [if_neg (fun h => hne h.1)] at hr
    simp at hr
  unfold Store.cur at hdir ⊢
  unfold Store.setCur
  split
  · next hh =>
    rw [if_pos hh] at hdir
    refine .single (.prune w _ (fun p n h => ?_) (fun p n h => ?_) fun h => h.del path)
    · rw [Assoc.get_del] at h
      split at h
      · simp at h
      · exact h
    · rw [fileAt_eq_some] at h ⊢
      rw [Assoc.get_del_of_ne _ (by rintro rfl; simp [hdir] at h)]
      exact h
  · exact .single (.bareSource w _ fun hb => hb.del path)

end Io

namespace Mover

open Io

/-! ### Variables -/

theorem moves_jobItem {r : World D → World D → Prop} (i : ℕ) :
    Moves r (jobItem i : Mover D (MoveItem D)) := moves_read

theorem moves_jobFile {r : World D → World D → Prop} (i j : ℕ) :
    Moves r (jobFile i j : Mover D (MoveFile D)) := moves_read

theorem moves_setJob {g : MoveJob D → MoveJob D} (hg : ∀ job, JobStep job (g job)) :
    Moves (Look plain) (setJob g) :=
  moves_assign fun w => .single (.job w _ (hg w.job))

theorem moves_setItem (i : ℕ) {g : MoveItem D → MoveItem D} (hg : ∀ a, ItemStep a (g a)) :
    Moves (Look plain) (setItem i g) :=
  moves_setJob fun job => JobStep.setItem job i hg

theorem moves_setFile (i j : ℕ) {g : MoveFile D → MoveFile D} (hg : ∀ f, FileStep f (g f)) :
    Moves (Look plain) (setFile i j g) :=
  moves_setItem i fun a => ItemStep.setFile a j hg

theorem moves_each {B : Type} {r : World D → World D → Prop} {step : B → Mover D Unit}
    (h : ∀ x, Moves r (step x)) (xs : List B) : Moves r (each xs step) := by
  induction xs with
  | nil => exact moves_ret
  | cons x xs ih => exact (h x).bind fun _ => ih

theorem moves_exceptOs {r : World D → World D → Prop} {m : Mover D A} {g : OsError → Mover D A}
    (hm : Moves r m) (hg : ∀ x, Moves r (g x)) : Moves r (exceptOs m g) := by
  refine hm.handle fun x => ?_
  cases x with
  | os x => exact hg x
  | cancelled => exact moves_raise

theorem moves_loop {B : Type} {body : B → Mover D (B ⊕ A)}
    (h : ∀ b, Moves (Quiet plain) (body b)) (b : B) :
    Moves (Quiet plain) (Prog.loop around body b) :=
  Moves.loop (fun e w => around_quiet e w) h b

theorem moves_checkCancel {r : World D → World D → Prop} :
    Moves r (checkCancel : Mover D Unit) :=
  moves_read.bind fun _ => Moves.ite (fun _ => moves_raise) fun _ => moves_ret

/-! ### Closing and waiting -/

theorem moves_discard (rel : String) :
    Moves (Quiet plain) (discard (rel ++ PART_SUFFIX) : Mover D Unit) :=
  moves_exceptOs ((moves_exists _ _).quiet.bind fun _ =>
    Moves.ite (fun _ => moves_unlink_part (isPart_append rel)) fun _ => moves_ret)
    fun _ => moves_ret

theorem moves_close (i : ℕ) {state : ItemState} (hs : state ≠ .done) (note detail : String) :
    Moves (Quiet plain) (close i state note detail : Mover D Bool) := by
  have hset : Moves (Quiet plain) (setItem i fun item : MoveItem D =>
      { item with state, note, detail }) :=
    Moves.quiet (moves_setItem i fun a => ⟨rfl, rfl, rfl, rfl, fun h => absurd h hs,
      forall₂_refl FileStep.refl _⟩)
  unfold close
  rw [if_pos hs]
  refine (moves_jobItem i).bind fun item => (moves_each (fun f => ?_) _).bind fun _ =>
    hset.bind fun _ => moves_save.quiet.bind fun _ => moves_ret
  exact Moves.ite (fun _ => moves_discard f.rel) fun _ => moves_ret

theorem moves_oneSecond : Moves (Look plain) (oneSecond : Mover D Unit) :=
  moves_checkCancel.bind fun _ => moves_sleep 1

theorem moves_wait (detail : String) : Moves (Quiet plain) (wait detail : Mover D Unit) := by
  have hstatus : ∀ status reason, Moves (Quiet plain)
      (setJob fun job : MoveJob D => { job with status, reason }) :=
    fun _ _ => Moves.quiet (moves_setJob fun job => JobStep.refl job)
  refine (hstatus _ _).bind fun _ => moves_save.quiet.bind fun _ =>
    (moves_loop (fun _ => ?_) _).bind fun _ => (hstatus _ _).bind fun _ => moves_save.quiet
  exact (moves_each (fun _ => moves_oneSecond.quiet) _).bind fun _ =>
    moves_ask.quiet.bind fun _ => moves_ret

theorem moves_trouble (i : ℕ) (x : OsError) :
    Moves (Quiet plain) (trouble i x : Mover D Bool) := by
  have herrors : Moves (Quiet plain) (setItem i fun item : MoveItem D =>
      { item with errors := item.errors + 1 }) :=
    Moves.quiet (moves_setItem i fun a => ⟨rfl, rfl, rfl, rfl, id, forall₂_refl FileStep.refl _⟩)
  unfold trouble
  refine moves_ask.quiet.bind fun ok => Moves.ite (fun _ => ?_) fun _ =>
    (moves_wait _).bind fun _ => moves_ret
  refine herrors.bind fun _ => (moves_jobItem i).bind fun item => Moves.ite (fun _ => ?_) fun _ =>
    (moves_wait _).bind fun _ => moves_ret
  have hne : ItemState.skipped ≠ .done := by decide
  exact moves_close i hne _ _

/-! ### Copying and proving -/

theorem moves_markHere (side : Side) (e : End) :
    Moves (Look plain) (markHere side e : Mover D Unit) := by
  unfold markHere
  exact Moves.ite (fun _ => (moves_mark side).bind fun _ =>
    Moves.ite (fun _ => moves_raise) fun _ => moves_ret) fun _ => moves_ret

theorem moves_storesHere : Moves (Look plain) (storesHere : Mover D Unit) :=
  moves_read.bind fun _ => (moves_markHere _ _).bind fun _ => moves_read.bind fun _ =>
    moves_markHere _ _

theorem moves_resumeAt (f : MoveFile D) {part : String} (hp : IsPart part) :
    Moves (Quiet plain) (resumeAt f part) := by
  have hcut : ∀ there : ℕ, Moves (Quiet plain) (do
      if there > f.synced then truncate part f.synced
      return min there f.synced : Mover D ℕ) := fun there =>
    Moves.ite (fun _ => (moves_truncate hp _).bind fun _ => moves_ret) fun _ => moves_ret
  refine (moves_exists _ _).quiet.bind fun _ => Moves.ite (fun _ => ?_) fun _ => ?_
  · exact (moves_size _ _).quiet.bind hcut
  · exact moves_ret.bind hcut

theorem moves_copyLoop (i j : ℕ) (reader : Handle) {writer : Handle} (hp : IsPart writer.path)
    (b : ℕ × ℕ) : Moves (Quiet plain) (copyLoop i j reader writer b : Mover D Unit) := by
  refine moves_loop (fun b => ?_) b
  have hdone : ∀ n : ℕ, Moves (Quiet plain)
      (setFile i j fun f : MoveFile D => { f with done := f.done + n }) :=
    fun n => Moves.quiet (moves_setFile i j fun _ => ⟨rfl, rfl, rfl, rfl⟩)
  have hsynced : Moves (Quiet plain)
      (setFile i j fun f : MoveFile D => { f with synced := f.done }) :=
    Moves.quiet (moves_setFile i j fun _ => ⟨rfl, rfl, rfl, rfl⟩)
  refine moves_checkCancel.bind fun _ => (moves_readBlock _ _ _ _).quiet.bind fun block =>
    Moves.ite (fun _ => moves_ret) fun _ => (moves_write hp block).bind fun _ =>
    (hdone _).bind fun _ => Moves.ite (fun _ => ?_) fun _ => moves_ret
  exact (moves_fsync hp).bind fun _ => hsynced.bind fun _ => moves_save.quiet.bind fun _ =>
    moves_ret

theorem moves_keepAge (final : String) (i j : ℕ) :
    Moves (Quiet plain) (keepAge final i j : Mover D Unit) := by
  refine moves_exceptOs ((moves_jobFile i j).bind fun f => ?_) fun _ => moves_ret
  cases f.stamp with
  | none => exact moves_ret
  | some st => exact moves_setMtime final st.mtime

theorem moves_settle (i : ℕ) : Moves (Quiet plain) (settle i : Mover D Unit) := by
  refine (moves_jobItem i).bind fun item => moves_loop (fun _ => moves_read.bind fun _ => ?_) _
  exact Moves.ite (fun _ => moves_oneSecond.quiet.bind fun _ => moves_ret) fun _ => moves_ret

theorem moves_pruneDirs (dirs : List String) :
    Moves (Quiet plain) (pruneDirs dirs : Mover D Unit) := by
  induction dirs with
  | nil => exact moves_ret
  | cons dir dirs ih =>
    refine (moves_exceptOs ((moves_rmdir dir).bind fun _ => moves_ret) fun _ =>
      moves_ret).bind fun gone => ?_
    exact Moves.ite (fun _ => ih) fun _ => moves_ret

end Mover

end StoreMoves
