import Caravan.Proxy.Fifo
import Caravan.Proxy.Slots

/-!
# Whom a group counts

`active_count` reads the stamp and the phase of an item, and neither follows its request
everywhere. A pool's leg to a cell is stamped while its phase is still that of the leg
before; a leg to an account leaves the cell's stamp; a cloud fallback leaves the queue
with the stamp of the group it has not got into; and a rescue goes to its group past the
queue. Each of these counts a request for a group it is not on.

`ThroughQueue g` says that nothing of this happens to one group: whoever is stamped with
it has phase `queued`, and whoever leaves it is stamped anew. In such a run the count of
the group is of requests that are on it (`counts_only`).
-/

set_option linter.unusedSectionVars false

namespace Proxy.Queue

variable {P G : Type} [DecidableEq P] [DecidableEq G] {s s' : State P G} {e : Event P G}

/-- The items of a request. -/
def State.Items (s : State P G) (r : ℕ) (p : Item P G → Prop) : Prop :=
  ∀ i ∈ s.active, i.id = r → p i

/-- The group is entered through its queue alone, and left with a new stamp. -/
def ThroughQueue (g : G) (s : State P G) : Event P G → Prop
  | .start _ _ group cloud _ => cloud = true → group ≠ g
  | .spill id group cloud => group = g → cloud = false ∧ s.Items id fun i => i.phase = .queued
  | .unqueue id => ∀ t, s.thread id = some t → t.pc = .quitting .main .fallback →
      s.Items id fun i => i.upstream ≠ g
  | .toCell id group _ => group = g → s.Items id fun i => i.phase = .queued
  | .toAccount id _ => s.Items id fun i => i.upstream ≠ g
  | .rescue _ group _ _ => group ≠ g
  | .preempt _ victim _ _ => s.Items victim fun i => i.upstream = g → i.phase ≠ .queued
  | _ => True

/-- Where a request takes no place: before its queue, in it, or past its end. -/
def Thread.Idle (t : Thread P G) : Prop :=
  match t.pc with
  | .queueing _ | .waiting _ | .quitting .. | .spilling | .refused | .broken | .leaving
  | .closed | .gone => True
  | .forward => t.cloud = true
  | _ => False

/-- Where a thread is on a leg to a cell that is not admitted yet. -/
def Pc.AtCell : Pc → Prop
  | .queueing .leg | .waiting .leg | .quitting .leg _ => True
  | _ => False

/-- What holds of a request and the stamp of its item. -/
structure Fair (g : G) (s : State P G) (r : ℕ) (t : Thread P G) : Prop where
  /-- A request waits where its stamp says. -/
  stamp : t.pc.Waits → s.Items r fun i => i.upstream = t.group
  /-- Only a pool has legs to cells. -/
  cell : t.pc.AtCell → t.cloud = true
  /-- A cloud route is not stamped with the group. -/
  cloud : t.pc = .queueing .main → t.cloud = true → s.Items r fun i => i.upstream ≠ g
  /-- A request with the stamp of the group is on it, or takes no place. -/
  place : s.Items r fun i => i.upstream = g → t.on = some g ∨ i.phase = .queued ∧ t.Idle

/-- The items of a request after its own patch. -/
theorem items_patched {r : ℕ} {t : Thread P G} {patch : Item P G → Item P G}
    {p : Item P G → Prop} (hb : Books s) (hr : TidyOf s r) (ht : s.thread r = some t)
    (h : s.Items r fun i => p (patch i)) :
    (s.updateActive t.port r patch).Items r p := by
  intro i hi hid
  rcases of_mem_patchFirst hb.distinct hi with ⟨hi, hn⟩ | ⟨j, hj, -, hjid, rfl⟩
  · -- its item is in the row of its port, where the patch has found it
    obtain ⟨u, hu, hport, -⟩ := hr.active i hi hid
    obtain rfl := Option.some.inj (hu.symm.trans ht)
    exact absurd ⟨hport, hid⟩ hn
  · exact h j hj hjid

/-- The stamp of an item is as it was, and so is its phase unless it said already that the
request is on the group. -/
def Alike (g : G) (s s' : State P G) (r : ℕ) : Prop :=
  s'.Items r fun i => ∃ j ∈ s.active, j.id = r ∧ i.upstream = j.upstream ∧
    (i.phase = j.phase ∨ (j.upstream = g → j.phase ≠ .queued))

theorem Fair.alike {g : G} {r : ℕ} {t t' : Thread P G} (hf : Fair g s r t) (h : Alike g s s' r)
    (hpc : t'.pc = t.pc) (hgroup : t'.group = t.group) (hcloud : t'.cloud = t.cloud)
    (hon : t'.on = t.on) : Fair g s' r t' where
  stamp hw i hi hid := by
    obtain ⟨j, hj, hjid, hup, -⟩ := h i hi hid
    rw [hup, hgroup]
    exact hf.stamp (hpc ▸ hw) j hj hjid
  cell hat := hcloud ▸ hf.cell (hpc ▸ hat)
  cloud hq hc i hi hid := by
    obtain ⟨j, hj, hjid, hup, -⟩ := h i hi hid
    rw [hup]
    exact hf.cloud (hpc ▸ hq) (hcloud ▸ hc) j hj hjid
  place i hi hid hg := by
    obtain ⟨j, hj, hjid, hup, hphase⟩ := h i hi hid
    have hidle : t.Idle → t'.Idle := fun h => by
      unfold Thread.Idle
      rw [hpc, hcloud]
      exact h
    rcases hf.place j hj hjid (hup ▸ hg) with ho | ⟨hqd, hi⟩
    · exact .inl (hon.trans ho)
    · rcases hphase with hp | hp
      · exact .inr ⟨hp.trans hqd, hidle hi⟩
      · exact absurd hqd (hp (hup ▸ hg))

/-- A victim that waits in the group is not marked. -/
theorem alike_marked {g : G} {vport : P} {victim : ℕ} {t : Thread P G} {id r : ℕ} (hb : Books s)
    (hq : s.Items victim fun i => i.upstream = g → i.phase ≠ .queued) :
    Alike g s ((s.updateActive vport victim fun i => { i with phase := .preempting }).set id t)
      r := by
  intro i hi hid
  rcases of_mem_patchFirst hb.distinct hi with ⟨hi, -⟩ | ⟨j, hj, -, hjid, rfl⟩
  · exact ⟨i, hi, hid, rfl, .inl rfl⟩
  · exact ⟨j, hj, hid, rfl, .inr (hq j hj hjid)⟩

/-- The step of another. -/
theorem Fair.frame {g : G} {r : ℕ} {t : Thread P G} (hb : Books s) (hf : Fair g s r t)
    (hq : ThroughQueue g s e) (h : Step s e s') (ha : e.actor ≠ some r) : Fair g s' r t := by
  refine hf.alike ?_ rfl rfl rfl rfl
  by_cases he : e.Reaches
  · cases h with
    | preempt | preemptRaises => exact alike_marked hb hq
    | preemptUnsaved => exact fun i hi hid => ⟨i, hi, hid, rfl, .inl rfl⟩
    | sync => exact fun i hi hid => ⟨i, (List.mem_filter.mp hi).1, hid, rfl, .inl rfl⟩
    | _ => exact he.elim
  · exact fun i hi hid => ⟨i, (h.sameItems ha he i hid).mp hi, hid, rfl, .inl rfl⟩

/-- A request that has got onto the group, or whose stamp is another's. -/
theorem Fair.of_on {g : G} {r : ℕ} {t : Thread P G} (hw : ¬ t.pc.Waits) (hc : ¬ t.pc.AtCell)
    (h : s.Items r fun i => i.upstream = g → t.on = some g) : Fair g s r t where
  stamp h := absurd h hw
  cell h := absurd h hc
  cloud hpc := absurd (by rw [hpc]; trivial) hw
  place i hi hid hg := .inl (h i hi hid hg)

/-- A request that takes no place. -/
theorem Fair.of_idle {g : G} {r : ℕ} {t : Thread P G} (hw : ¬ t.pc.Waits)
    (hc : t.pc.AtCell → t.cloud = true) (hi : t.Idle)
    (h : s.Items r fun i => i.upstream = g → t.on = some g ∨ i.phase = .queued) :
    Fair g s r t where
  stamp h := absurd h hw
  cell := hc
  cloud hpc := absurd (by rw [hpc]; trivial) hw
  place i hm hid hg := (h i hm hid hg).imp_right fun hq => ⟨hq, hi⟩

theorem Fair.on_of_place {g : G} {r : ℕ} {t : Thread P G} (hf : Fair g s r t) (hi : ¬ t.Idle) :
    s.Items r fun i => i.upstream = g → t.on = some g :=
  fun i hm hid hg => (hf.place i hm hid hg).resolve_right fun h => hi h.2

/-- **What a request's own step keeps.** -/
theorem Fair.act {g : G} {r : ℕ} (hb : Books s) (hw : s.writable = true) (hr : TidyOf s r)
    (hf : ∀ t, s.thread r = some t → Fair g s r t) (hc : e.Clean) (hq : ThroughQueue g s e)
    (h : Step s e s') (ha : e.actor = some r) : ∃ t', s'.thread r = some t' ∧ Fair g s' r t' := by
  have hw' := h.written hw hc
  cases id h with
  | @start id port group cloud w hnew =>
    obtain rfl := Option.some.inj ha
    rw [State.set_writable] at hw'
    have hnone : s.Items id fun _ => False := fun i hi hid => by
      obtain ⟨u, hu, -⟩ := hr.active i hi hid
      rw [hnew] at hu
      cases hu
    refine ⟨_, State.set_self .., ?_⟩
    rw [Thread.goes, if_pos hw']
    refine ⟨fun _ i hi hid => ?_, fun h => h.elim, fun _ hcl i hi hid => ?_,
      fun i hi hid hg => ?_⟩ <;>
    · rcases List.mem_append.mp hi with hi | hi
      · exact (hnone i hi hid).elim
      · obtain rfl := List.mem_singleton.mp hi
        first
        | rfl
        | exact hq hcl
        | exact .inr ⟨rfl, trivial⟩
  | @block _ t at_ ht hpc =>
    obtain rfl := Option.some.inj ha
    have hft := hf t ht
    refine ⟨_, State.set_self .., Fair.of_idle ?_ ?_ ?_ fun i hi hid hg =>
      (hft.place i hi hid hg).imp_right And.left⟩
    · cases at_ <;> exact not_false
    · cases at_ <;> exact fun h => h.elim
    · cases at_
      · trivial
      · exact hft.cell (by rw [hpc]; trivial)
  | @bypass _ t ht hpc hcl =>
    obtain rfl := Option.some.inj ha
    exact ⟨_, State.set_self .., Fair.of_on (fun h => h.elim) (fun h => h.elim)
      fun i hi hid hg => absurd hg ((hf t ht).cloud hpc hcl i hi hid)⟩
  | @enter _ _ t at_ ht hpc hmain =>
    obtain rfl := Option.some.inj ha
    have hft := hf t ht
    refine ⟨_, State.set_self .., ⟨fun _ i hi hid => hft.stamp (by rw [hpc]; trivial) i hi hid,
      fun hat => ?_, fun h => (by cases h), fun i hi hid hg => ?_⟩⟩
    · cases at_
      · exact hat.elim
      · exact hft.cell (by rw [hpc]; trivial)
    · exact (hft.place i hi hid hg).imp_right fun h => ⟨h.1, trivial⟩
  | @blocked _ t at_ ht hpc | @passed _ t at_ ht hpc =>
    obtain rfl := Option.some.inj ha
    have hft := hf t ht
    refine ⟨t, ht, ⟨fun hwt => items_patched hb hr ht fun i hi hid => hft.stamp hwt i hi hid,
      hft.cell, fun hpc' => ?_, items_patched hb hr ht fun i hi hid hg => ?_⟩⟩
    · rw [hpc] at hpc'
      cases hpc'
    · exact (hft.place i hi hid hg).imp_right fun h => ⟨rfl, h.2⟩
  | pollRaises _ _ _ hraise => exact Bool.noConfusion (hraise.symm.trans hw')
  | @admitted _ t at_ ht hpc | @admitAfterPreempt _ _ t at_ ht hpc =>
    -- the stamp is that of the group it has waited in
    obtain rfl := Option.some.inj ha
    have hstamp := (hf t ht).stamp (by rw [hpc]; trivial)
    refine ⟨_, State.set_self .., Fair.of_on (fun h => h.elim) (fun h => h.elim) ?_⟩
    first
    | exact items_patched hb hr ht fun i hi hid hg => congrArg some ((hstamp i hi hid).symm.trans hg)
    | exact fun i hi hid hg => congrArg some ((hstamp i hi hid).symm.trans hg)
  | preempt ht =>
    obtain rfl := Option.some.inj ha
    exact ⟨_, State.set_self .., (hf _ ht).alike (alike_marked hb hq) rfl rfl rfl rfl⟩
  | preemptUnsaved _ _ _ hsaved => rw [hc] at hsaved; cases hsaved
  | preemptRaises _ _ _ _ hraise => exact Bool.noConfusion (hraise.symm.trans hw')
  | @graceOver _ t at_ ht hpc =>
    obtain rfl := Option.some.inj ha
    have hft := hf t ht
    exact ⟨_, State.set_self .., hft.stamp, hft.cell, hft.cloud, hft.place⟩
  | @quit _ exit t at_ ht hpc =>
    obtain rfl := Option.some.inj ha
    have hft := hf t ht
    refine ⟨_, State.set_self .., Fair.of_idle (fun h => h.elim) (fun hat => ?_) trivial
      fun i hi hid hg => (hft.place i hi hid hg).imp_right And.left⟩
    cases at_
    · exact hat.elim
    · exact hft.cell (by rw [hpc]; trivial)
  | @unqueue _ t at_ exit ht hpc =>
    obtain rfl := Option.some.inj ha
    have hft := hf t ht
    have hs := hr.sane _ ht
    rw [hpc] at hs
    have hplace : s.Items _ fun i => i.upstream = g → t.on = some g ∨ i.phase = .queued :=
      fun i hi hid hg => (hft.place i hi hid hg).imp_right And.left
    refine ⟨_, State.set_self .., ?_⟩
    cases at_
    · cases exit
      · exact Fair.of_idle (fun h => h.elim) (fun h => h.elim) trivial hplace
      · -- a fallback leaves with no stamp of the group
        exact Fair.of_on (fun h => h.elim) (fun h => h.elim) fun i hi hid hg =>
          absurd hg (hq t ht hpc i hi hid)
      · exact Fair.of_idle (fun h => h.elim) (fun h => h.elim) trivial hplace
      · exact hs.elim
    · have hcl : t.cloud = true := hft.cell (by rw [hpc]; trivial)
      cases exit
      · exact Fair.of_idle (fun h => h.elim) (fun h => h.elim) hcl hplace
      · exact Fair.of_idle (fun h => h.elim) (fun h => h.elim) hcl hplace
      · exact Fair.of_idle (fun h => h.elim) (fun h => h.elim) hcl hplace
      · exact hs.elim
  | @spill _ group cloud t ht hpc =>
    obtain rfl := Option.some.inj ha
    rw [State.set_writable] at hw'
    refine ⟨_, State.set_self .., ?_⟩
    rw [Thread.goes, if_pos hw']
    cases cloud
    · refine ⟨fun _ => items_patched hb hr ht fun _ _ _ => rfl, fun h => h.elim,
        fun _ h => (by cases h), items_patched hb hr ht fun i hi hid hg => ?_⟩
      exact .inr ⟨(hq hg).2 i hi hid, trivial⟩
    · refine Fair.of_on (fun h => h.elim) (fun h => h.elim)
        (items_patched hb hr ht fun i hi hid hg => ?_)
      exact Bool.noConfusion (hq hg).1
  | @unroutable _ t ht hpc =>
    obtain rfl := Option.some.inj ha
    exact ⟨_, State.set_self .., Fair.of_idle (fun h => h.elim) (fun h => h.elim) trivial
      fun i hi hid hg => ((hf t ht).place i hi hid hg).imp_right And.left⟩
  | @receive _ t ht hpc =>
    obtain rfl := Option.some.inj ha
    rw [State.set_writable] at hw'
    refine ⟨_, State.set_self .., ?_⟩
    rw [Thread.goes, if_pos hw']
    exact Fair.of_on (fun h => h.elim) (fun h => h.elim) (items_patched hb hr ht fun i hi hid hg =>
      (hf t ht).on_of_place (by simp [Thread.Idle, hpc]) i hi hid hg)
  | @discard _ _ t ht hpc =>
    obtain rfl := Option.some.inj ha
    refine ⟨_, State.set_self .., ?_⟩
    rw [Thread.goes, if_pos (show _ = true from hc)]
    exact Fair.of_on (fun h => h.elim) (fun h => h.elim)
      ((hf t ht).on_of_place (by simp [Thread.Idle, hpc]))
  | @discardLeg _ _ t ht hpc | @goOn _ t ht hpc =>
    obtain rfl := Option.some.inj ha
    exact ⟨_, State.set_self .., Fair.of_on (fun h => h.elim) (fun h => h.elim)
      ((hf t ht).on_of_place (by simp [Thread.Idle, hpc]))⟩
  | @toCell _ group _ t ht hpc hcl =>
    obtain rfl := Option.some.inj ha
    rw [State.set_writable] at hw'
    refine ⟨_, State.set_self .., ?_⟩
    rw [Thread.runs, if_pos hw']
    refine ⟨fun _ => items_patched hb hr ht fun _ _ _ => rfl, fun _ => hcl, fun h => (by cases h),
      items_patched hb hr ht fun i hi hid hg => ?_⟩
    exact .inr ⟨hq hg i hi hid, trivial⟩
  | @toAccount _ _ t ht hpc =>
    obtain rfl := Option.some.inj ha
    rw [State.set_writable] at hw'
    refine ⟨_, State.set_self .., ?_⟩
    rw [Thread.runs, if_pos hw']
    exact Fair.of_on (fun h => h.elim) (fun h => h.elim)
      (items_patched hb hr ht fun i hi hid hg => absurd hg (hq i hi hid))
  | @rescue _ group _ _ t ht hpc =>
    obtain rfl := Option.some.inj ha
    rw [State.set_writable] at hw'
    refine ⟨_, State.set_self .., ?_⟩
    rw [Thread.runs, if_pos hw']
    exact Fair.of_on (fun h => h.elim) (fun h => h.elim)
      (items_patched hb hr ht fun i hi hid hg => absurd hg hq)
  | @send _ t ht hpc =>
    obtain rfl := Option.some.inj ha
    rw [State.set_writable] at hw'
    have hidle : ¬ t.Idle := by
      rcases hpc with hpc | ⟨hpc, hcl⟩ <;> simp [Thread.Idle, *]
    refine ⟨_, State.set_self .., ?_⟩
    rw [Thread.runs, if_pos hw']
    exact Fair.of_on (fun h => h.elim) (fun h => h.elim)
      (items_patched hb hr ht ((hf t ht).on_of_place hidle))
  | @answer _ _ _ t ht hpc | @relay _ _ t ht hpc =>
    obtain rfl := Option.some.inj ha
    rw [State.set_writable] at hw'
    refine ⟨_, State.set_self .., ?_⟩
    rw [Thread.runs, if_pos hw']
    exact Fair.of_on (fun h => h.elim) (fun h => h.elim)
      (items_patched hb hr ht ((hf t ht).on_of_place (by simp [Thread.Idle, hpc])))
  | @fail _ t ht hpc =>
    obtain rfl := Option.some.inj ha
    exact ⟨_, State.set_self .., Fair.of_idle (fun h => h.elim) (fun h => h.elim) trivial
      fun i hi hid hg => ((hf t ht).place i hi hid hg).imp_right And.left⟩
  | @finish _ _ _ t ht hpc =>
    -- nothing in the books is of the request any more
    obtain rfl := Option.some.inj ha
    rw [State.set_writable] at hw'
    refine ⟨_, State.set_self .., ?_⟩
    rw [Thread.goes, if_pos hw']
    refine Fair.of_on (fun h => h.elim) (fun h => h.elim) fun i hi hid => ?_
    obtain ⟨hmem, hn⟩ := List.mem_filter.mp hi
    obtain ⟨u, hu, hport, -⟩ := hr.active i hmem hid
    obtain rfl := Option.some.inj (hu.symm.trans ht)
    simp [hid, hport] at hn
  | uncountable => exact Bool.noConfusion hc.1
  | @release _ _ t ht hpc =>
    obtain rfl := Option.some.inj ha
    exact ⟨_, State.set_self .., Fair.of_idle (fun h => h.elim) (fun h => h.elim) trivial
      fun i hi hid hg => ((hf t ht).place i (by simpa using hi) hid hg).imp_right And.left⟩
  | sync | tick | sweepSee | sweepPop => cases ha

/-! ### Runs -/

/-- A step that the books can take, and that keeps to the queue of the group. -/
def Honest (g : G) (s : State P G) (e : Event P G) : Prop := e.Clean ∧ ThroughQueue g s e

structure Faithful (g : G) (s : State P G) : Prop where
  books : Books s
  tidy : Tidy s
  fair : ∀ r t, s.thread r = some t → Fair g s r t

theorem Faithful.init (g : G) : Faithful g (State.init : State P G) :=
  ⟨Books.init, Tidy.init, fun _ _ h => by cases h⟩

theorem Faithful.step {g : G} (hs : Faithful g s) (hok : Honest g s e) (h : Step s e s') :
    Faithful g s' := by
  refine ⟨hs.books.step h, hs.tidy.step hok.1 h, fun r t ht => ?_⟩
  by_cases ha : e.actor = some r
  · obtain ⟨t', ht', hf⟩ := Fair.act hs.books hs.tidy.written (hs.tidy.of r) (hs.fair r) hok.1
      hok.2 h ha
    exact Option.some.inj (ht'.symm.trans ht) ▸ hf
  · rw [(h.frame ha).thread] at ht
    exact (hs.fair r t ht).frame hs.books hok.2 h ha

theorem faithful {g : G} (h : (system P G).Reach (Honest g) s) : Faithful g s :=
  h.invariant (fun _ h => h ▸ Faithful.init g) fun _ _ _ hs hok hstep => hs.step hok hstep

/-- An item that takes a place of the group is of a request on it. -/
theorem Faithful.counts {g : G} (hs : Faithful g s) {i : Item P G} (hi : i ∈ s.active)
    (hc : i.Counts s.admitted g) : ∃ t, s.thread i.id = some t ∧ t.on = some g := by
  obtain ⟨t, ht, -, -⟩ := (hs.tidy.of i.id).active i hi rfl
  refine ⟨t, ht, ?_⟩
  rcases (hs.fair i.id t ht).place i hi rfl hc.1 with hon | ⟨hqd, hidle⟩
  · exact hon
  · -- phase `queued` and a place: an admission, which an idle request has not
    rcases hc.2 with hadm | hne
    · obtain ⟨u, hu, hpc⟩ := (hs.tidy.of i.id).admitted hadm
      obtain rfl := Option.some.inj (hu.symm.trans ht)
      unfold Thread.Idle at hidle
      revert hpc hidle
      cases u.pc <;> simp [Pc.Admitted]
    · exact absurd hqd hne

/-- **No phantom occupancy.** What `active_count` gives for the group is the number of a
set of requests that are all on it. -/
theorem counts_only {g : G} (h : (system P G).Reach (Honest g) s) :
    ∃ F : Finset ℕ, F.card = s.activeCount g ∧
      ∀ r ∈ F, ∃ t, s.thread r = some t ∧ t.on = some g := by
  have hs := faithful h
  have hnodup : ((s.active.filter fun i => i.Counts s.admitted g).map Item.id).Nodup :=
    hs.books.distinct.sublist (List.filter_sublist.map _)
  refine ⟨_, (List.toFinset_card_of_nodup hnodup).trans (List.length_map ..), fun r hr => ?_⟩
  obtain ⟨i, hi, rfl⟩ := List.mem_map.mp (List.mem_toFinset.mp hr)
  obtain ⟨hmem, hc⟩ := List.mem_filter.mp hi
  exact hs.counts hmem (of_decide_eq_true hc)

/-- A request admitted to the group. -/
theorem counts_only_first : ∃ s : State ℕ ℕ, s.activeCount 5 = 1 ∧
    ∃ F : Finset ℕ, F.card = s.activeCount 5 ∧
      ∀ r ∈ F, ∃ t, s.thread r = some t ∧ t.on = some 5 := by
  have h₀ : (system ℕ ℕ).Reach (Honest 5) State.init := .init rfl
  have h₁ := h₀.next (@Step.start _ _ _ _ _ 0 9 5 false true rfl) ⟨rfl, fun h => nomatch h⟩
  have h₂ := h₁.next (@Step.enter _ _ _ _ _ 0 1 (Thread.new 9 5 false) .main rfl rfl
    fun _ => rfl) ⟨trivial, trivial⟩
  have h₃ := h₂.next (@Step.admitted _ _ _ _ _ 0
    ⟨.waiting .main, 9, 5, false, none, 1, .untried, none, false⟩ .main rfl rfl (by decide)
    rfl rfl (by decide)) ⟨trivial, trivial⟩
  exact ⟨_, by rfl, counts_only h₃⟩

/-- A pool's leg that has gone on from a cell to an account is counted at the cell. -/
theorem account_counted_at_cell : ∃ (s : State ℕ ℕ) (t : Thread ℕ ℕ),
    (system ℕ ℕ).Reachable s ∧ s.activeCount 5 = 1 ∧ s.thread 0 = some t ∧ t.pc = .sent ∧
      t.on = none ∧ ∀ r ≠ 0, s.thread r = none := by
  have h₀ : (system ℕ ℕ).Reachable State.init := .init rfl
  have h₁ := h₀.next (@Step.start _ _ _ _ _ 0 9 7 true true rfl) trivial
  have h₂ := h₁.next (@Step.bypass _ _ _ _ _ 0 (Thread.new 9 7 true) rfl rfl rfl) trivial
  have h₃ := h₂.next (@Step.receive _ _ _ _ _ 0
    ⟨.taken .main, 9, 7, true, some 7, 0, .untried, none, false⟩ rfl rfl) trivial
  have h₄ := h₃.next (@Step.discard _ _ _ _ _ 0 true
    ⟨.received, 9, 7, true, some 7, 0, .untried, none, false⟩ rfl rfl) trivial
  have h₅ := h₄.next (@Step.toCell _ _ _ _ _ 0 5 true
    ⟨.forward, 9, 7, true, some 7, 0, .untried, none, false⟩ rfl rfl rfl) trivial
  have h₆ := h₅.next (@Step.enter _ _ _ _ _ 0 1
    ⟨.queueing .leg, 9, 5, true, some 7, 0, .untried, none, false⟩ .leg rfl rfl
    (by decide)) trivial
  have h₇ := h₆.next (@Step.admitted _ _ _ _ _ 0
    ⟨.waiting .leg, 9, 5, true, some 7, 1, .untried, none, false⟩ .leg rfl rfl (by decide)
    rfl rfl (by decide)) trivial
  have h₈ := h₇.next (@Step.discardLeg _ _ _ _ _ 0 true
    ⟨.taken .leg, 9, 5, true, some 7, 1, .untried, some 5, false⟩ rfl rfl) trivial
  have h₉ := h₈.next (@Step.send _ _ _ _ _ 0
    ⟨.ready, 9, 5, true, some 7, 1, .untried, some 5, true⟩ rfl (.inl rfl)) trivial
  have h₁₀ := h₉.next (@Step.answer _ _ _ _ _ 0 false true
    ⟨.sent, 9, 5, true, some 7, 1, .untried, some 5, false⟩ rfl rfl) trivial
  have h₁₁ := h₁₀.next (@Step.goOn _ _ _ _ _ 0
    ⟨.answered, 9, 5, true, some 7, 1, .untried, some 5, false⟩ rfl rfl rfl) trivial
  have h₁₂ := h₁₁.next (@Step.toAccount _ _ _ _ _ 0 true
    ⟨.forward, 9, 5, true, some 7, 1, .untried, some 5, false⟩ rfl rfl rfl) trivial
  have h₁₃ := h₁₂.next (@Step.send _ _ _ _ _ 0
    ⟨.ready, 9, 7, true, some 7, 1, .untried, none, false⟩ rfl (.inl rfl)) trivial
  refine ⟨_, ⟨.sent, 9, 7, true, some 7, 1, .untried, none, false⟩, h₁₃, by rfl, rfl, rfl, rfl,
    fun r hr => ?_⟩
  simp [Function.update_of_ne hr, State.init]

end Proxy.Queue
